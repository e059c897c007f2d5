import ProofHarness.Proofs.Scan.Completeness
import ProofHarness.Session

/-!
# Records stay valid

What a run of requests does to the records of a session.  A request edits, renews the records, or
does neither; one that asks for no step does neither.

* A renewal leaves only records that fit the text (`valid_step_of_renews`): found ones because a
  harness fits the text that it was found in, normalized ones because they were tested.
* Everything that is not an edit keeps them so (`valid_answer`), and what is not a renewal either
  touches nothing but modules (`sameButModules_answer`).
* A run in which a renewal comes after the last edit therefore ends in a session all of whose
  records fit, as asking the session itself shows.

Of the parser nothing is used but that it finds the names of functions where they stand.
-/

set_option autoImplicit false

namespace ProofHarness

open Syntax

/-! ## Kinds of requests -/

/-- A step that changes the text, or adds a record from outside. -/
def Step.edits : Step → Bool
  | .setText _ | .replace _ _ | .push _ => true
  | .extract | .attach _ | .normalize | .validate | .scan _ | .commands _ _ _ => false

/-- A step that takes the records from the text, or tests them against it. -/
def Step.renews : Step → Bool
  | .extract | .normalize | .scan _ => true
  | .setText _ | .replace _ _ | .push _ | .attach _ | .validate | .commands _ _ _ => false

namespace Request

/-- The request asks for a step of some kind; one that asks for no step is of no kind. -/
def asksFor (kind : Step → Bool) (r : Request) : Bool :=
  match r.step with
  | .ok step => kind step
  | .error _ => false

/-- A request that can be read asks for its step. -/
theorem asksFor_of_ok {kind : Step → Bool} {r : Request} {step : Step} (h : r.step = .ok step) :
    r.asksFor kind = kind step := by
  rw [asksFor, h]

/-- Any other request asks for nothing. -/
theorem asksFor_of_error {kind : Step → Bool} {r : Request} {e : RequestError}
    (h : r.step = .error e) : r.asksFor kind = false := by
  rw [asksFor, h]

/-- In some requests there is a renewal after the last edit, or there was no edit at all. -/
def UpToDate (rs : List Request) : Prop :=
  (∀ q ∈ rs, q.asksFor Step.edits = false) ∨
    ∃ before r after, rs = before ++ r :: after ∧ r.asksFor Step.renews = true ∧
      ∀ q ∈ after, q.asksFor Step.edits = false

end Request

namespace Session

variable {parse : String → Node} {s : Session} {r : Request} {rs : List Request}

/-- A run of requests and then some more. -/
theorem run_append (s : Session) (rs qs : List Request) :
    s.run parse (rs ++ qs) = (s.run parse rs).run parse qs :=
  List.foldl_append

/-- A run begins with its first request. -/
theorem run_cons (s : Session) (r : Request) (rs : List Request) :
    s.run parse (r :: rs) = (s.answer parse r).1.run parse rs := rfl

/-- Each request is answered by the session after the requests before it. -/
theorem getElem?_answersWith (s : Session) (rs : List Request) (i : Nat) :
    (s.answersWith parse rs)[i]? =
      rs[i]?.map fun r => (s.run parse (rs.take i)).answer parse r := by
  induction rs generalizing s i with
  | nil => rfl
  | cons r rs ih =>
    cases i with
    | zero => rfl
    | succ i =>
      rw [answersWith, List.getElem?_cons_succ, List.getElem?_cons_succ, List.take_succ_cons,
        run_cons]
      exact ih (s.answer parse r).1 i

/-- A request either asks for a step, which is taken, or leaves the session as it is. -/
theorem answer_cases (parse : String → Node) (s : Session) (r : Request) :
    (∃ step, r.step = .ok step ∧
        s.answer parse r = ((s.step parse step).1, .ok (s.step parse step).2)) ∨
      ∃ e, r.step = .error e ∧ s.answer parse r = (s, .error e) := by
  rw [answer]
  cases r.step with
  | ok step => exact .inl ⟨step, rfl, rfl⟩
  | error e => exact .inr ⟨e, rfl, rfl⟩

/-! ## The records fit the text -/

/-- All records of a session fit its text. -/
def Valid (s : Session) : Prop := AllFit s.text s.records

/-- A session starts with nothing that could be wrong. -/
theorem valid_start : start.Valid := by
  intro h hh
  cases hh

/-- After a renewal the records fit, whatever they were before. -/
theorem valid_step_of_renews (hparse : Faithful parse) {step : Step}
    (hstep : step.renews = true) : (s.step parse step).1.Valid := by
  cases step with
  | extract => exact allFit_ofTree (hparse s.text)
  | normalize => exact allFit_normalize s.text s.records
  | scan strategy => exact allFit_normalize s.text _
  | setText | replace | push | attach | validate | commands => cases hstep

/-- What is not an edit leaves records that fit. -/
theorem valid_step (hparse : Faithful parse) {step : Step} (hs : s.Valid)
    (hstep : step.edits = false) : (s.step parse step).1.Valid := by
  cases step with
  | attach strategy => exact allFit_attachModules.2 hs
  | validate | commands => exact hs
  | extract | normalize | scan => exact valid_step_of_renews hparse rfl
  | setText | replace | push => cases hstep

/-- So they do after a request that asks for a renewal. -/
theorem valid_answer_of_renews (hparse : Faithful parse) (hr : r.asksFor Step.renews = true) :
    (s.answer parse r).1.Valid := by
  obtain ⟨step, hstep, hanswer⟩ | ⟨e, herror, -⟩ := s.answer_cases parse r
  · rw [Request.asksFor_of_ok hstep] at hr
    rw [hanswer]
    exact valid_step_of_renews hparse hr
  · rw [Request.asksFor_of_error herror] at hr
    cases hr

/-- A request that asks for no edit leaves records that fit, also if it fails. -/
theorem valid_answer (hparse : Faithful parse) (hs : s.Valid)
    (hr : r.asksFor Step.edits = false) : (s.answer parse r).1.Valid := by
  obtain ⟨step, hstep, hanswer⟩ | ⟨e, -, hanswer⟩ := s.answer_cases parse r
  · rw [Request.asksFor_of_ok hstep] at hr
    rw [hanswer]
    exact valid_step hparse hs hr
  · rw [hanswer]
    exact hs

/-- A run without edits leaves records that fit. -/
theorem valid_run (hparse : Faithful parse) (hs : s.Valid)
    (hrs : ∀ q ∈ rs, q.asksFor Step.edits = false) : (s.run parse rs).Valid := by
  induction rs generalizing s with
  | nil => exact hs
  | cons r rs ih =>
    obtain ⟨hr, hrest⟩ := List.forall_mem_cons.1 hrs
    rw [run_cons]
    exact ih (valid_answer hparse hs hr) hrest

/-- The records fit after every run in which a renewal comes after the last edit. -/
theorem valid_run_start (hparse : Faithful parse) (hrs : Request.UpToDate rs) :
    (start.run parse rs).Valid := by
  rcases hrs with hnone | ⟨before, r, after, rfl, hr, hafter⟩
  · exact valid_run hparse valid_start hnone
  · rw [run_append, run_cons]
    exact valid_run hparse (valid_answer_of_renews hparse hr) hafter

/-! ## What the session answers -/

/-- Asked for a validation, a session finds no difference; asked for normal records it sets nothing
apart and loses none. -/
structure Confirms (parse : String → Node) (s : Session) : Prop where
  validate : (s.answer parse .validate).2 = .ok (.checks (s.records.map fun _ => none))
  normalize : (s.answer parse .normalize).2 = .ok (.desyncs [])
  kept : (s.answer parse .normalize).1.records.Perm (s.records.map Harness.withArguments)

/-- A session whose records fit confirms them. -/
theorem confirms_of_valid (hs : s.Valid) : s.Confirms parse := by
  refine ⟨?_, ?_, ?_⟩
  · have hchecks : s.records.map (Harness.desync? (Text.trimmedLines s.text)) =
        s.records.map fun _ => none := by
      apply List.map_congr_left
      intro h hh
      exact Harness.desync?_eq_none_iff.2 (hs h hh)
    show Except.ok (StepResult.checks _) = _
    rw [hchecks]
  · show Except.ok (StepResult.desyncs (ProofHarness.normalize s.text s.records).desyncs) = _
    rw [normalize_of_fits hs]
  · show (ProofHarness.normalize s.text s.records).harnesses.Perm _
    rw [normalize_of_fits hs]
    exact (List.mergeSort_perm s.records Harness.rowLe).map Harness.withArguments

/-! ## What does not touch the records -/

/-- Two sessions have the same text and, in the same order, the same records but for modules. -/
structure SameButModules (s t : Session) : Prop where
  text : t.text = s.text
  records : t.records.map (·.withModule none) = s.records.map (·.withModule none)

/-- A session is the same as itself. -/
theorem SameButModules.refl (s : Session) : SameButModules s s := ⟨rfl, rfl⟩

/-- Modules may change again and again. -/
theorem SameButModules.trans {s t u : Session} (hst : SameButModules s t)
    (htu : SameButModules t u) : SameButModules s u :=
  ⟨htu.text.trans hst.text, htu.records.trans hst.records⟩

/-- A step that neither edits nor renews changes modules at most. -/
theorem sameButModules_step {step : Step} (hedits : step.edits = false)
    (hrenews : step.renews = false) : SameButModules s (s.step parse step).1 := by
  cases step with
  | attach strategy =>
    refine ⟨rfl, ?_⟩
    show (attachModules (parse s.text) strategy s.records).map _ = _
    rw [attachModules_eq_map, List.map_map]
    rfl
  | validate | commands => exact .refl s
  | setText | replace | push => cases hedits
  | extract | normalize | scan => cases hrenews

/-- Nor does a request that asks for no edit and no renewal, among them those that fail. -/
theorem sameButModules_answer (hedits : r.asksFor Step.edits = false)
    (hrenews : r.asksFor Step.renews = false) : SameButModules s (s.answer parse r).1 := by
  obtain ⟨step, hstep, hanswer⟩ | ⟨e, -, hanswer⟩ := s.answer_cases parse r
  · rw [Request.asksFor_of_ok hstep] at hedits hrenews
    rw [hanswer]
    exact sameButModules_step hedits hrenews
  · rw [hanswer]
    exact .refl s

/-- A run of such requests changes modules at most. -/
theorem sameButModules_run (hedits : ∀ q ∈ rs, q.asksFor Step.edits = false)
    (hrenews : ∀ q ∈ rs, q.asksFor Step.renews = false) : SameButModules s (s.run parse rs) := by
  induction rs generalizing s with
  | nil => exact .refl s
  | cons r rs ih =>
    obtain ⟨hedit, hedits'⟩ := List.forall_mem_cons.1 hedits
    obtain ⟨hrenew, hrenews'⟩ := List.forall_mem_cons.1 hrenews
    rw [run_cons]
    exact (sameButModules_answer hedit hrenew).trans (ih hedits' hrenews')

/-- After every run in which a renewal comes after the last edit the session confirms all of its
records.  A request that neither edits nor renews changes no record of any session but for its
module, and neither does a run of such requests.  Each answer of a run is that of the session after
the requests before it. -/
theorem confirms_run_and_sameButModules (hparse : Faithful parse) (rs : List Request) :
    (Request.UpToDate rs → (start.run parse rs).Confirms parse) ∧
      (∀ (s : Session) (r : Request), r.asksFor Step.edits = false →
        r.asksFor Step.renews = false → SameButModules s (s.answer parse r).1) ∧
      (∀ s : Session, (∀ q ∈ rs, q.asksFor Step.edits = false) →
        (∀ q ∈ rs, q.asksFor Step.renews = false) → SameButModules s (s.run parse rs)) ∧
      ∀ (s : Session) (i : Nat), (s.answersWith parse rs)[i]? =
        rs[i]?.map fun r => (s.run parse (rs.take i)).answer parse r :=
  ⟨fun hrs => confirms_of_valid (valid_run_start hparse hrs), fun _ _ => sameButModules_answer,
    fun _ => sameButModules_run, fun s => getElem?_answersWith s rs⟩

/-- A run that goes on after its renewal with requests that fail, on a text with one harness. -/
theorem confirms_run_after_failures :
    let text := "mod m \x7b #[kani::proof]\r\n fn a() {} \x7d"
    let before : List Request := [.setText text]
    let after : List Request := [.scan (some "sideways"), .attach none, .other "rewind", .validate]
    let s := start.run Node.ofSource (before ++ .extract :: after)
    Faithful Node.ofSource ∧ Request.UpToDate (before ++ .extract :: after) ∧
      s.records.map (fun h => (h.name, h.module)) = [("a", some "m")] ∧ s.Confirms Node.ofSource ∧
      SameButModules s (s.answer Node.ofSource (.scan (some "sideways"))).1 := by
  intro text before after s
  have hnames : s.records.map (fun h => (h.name, h.module)) = [("a", some "m")] := by
    decide +kernel
  have hrs : Request.UpToDate (before ++ .extract :: after) :=
    .inr ⟨before, .extract, after, rfl, rfl, by decide⟩
  obtain ⟨hconfirms, hsame, -⟩ :=
    confirms_run_and_sameButModules faithful_ofSource (before ++ .extract :: after)
  exact ⟨faithful_ofSource, hrs, hnames, hconfirms hrs, hsame s _ rfl rfl⟩

end Session

end ProofHarness
