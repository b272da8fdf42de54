import Std.Data.String.ToInt
import SlangTape.Proofs.Invocation
import SlangTape.Proofs.Isolation
import SlangTape.Proofs.Refusal

set_option autoImplicit false

namespace SlangTape

namespace Traceback

/-- The report on a fault of the command at a place. -/
def report (location : Location) (fault : Fault) (steps : List String) : String :=
  reportAs location.statement location fault steps

variable {location : Location} {fault : Fault}

theorem stepLines_of_report_eq {line : String} {entry : Option Entry}
    (h : report location fault (stepLines entry) = report location fault [line]) :
    stepLines entry = [line] := by
  cases entry with
  | none =>
    have lengths := congrArg String.length h
    simp [report, reportAs, stepLines, String.intercalate_cons_cons] at lengths
  | some e => simpa [report, reportAs, stepLines, String.intercalate_cons_cons] using h

theorem stepLines_inj {e e' : Entry} (h : stepLines (some e) = stepLines (some e')) :
    e.step = e'.step ∧ e.index = e'.index := by
  have digits (n : ℕ) : ∀ c ∈ n.repr.toList, c.isDigit := by
    intro c hc
    rw [Nat.toList_repr] at hc
    exact Nat.isDigit_of_mem_toDigits (by decide) (by decide) hc
  have line : e.step.repr ++ ("  Instruction: " ++ e.index.repr) =
      e'.step.repr ++ ("  Instruction: " ++ e'.index.repr) := by
    simp only [stepLines, List.cons.injEq, and_true, String.append_assoc, String.append_right_inj] at h
    exact h
  have letters := congrArg String.toList line
  rw [String.toList_append, String.toList_append, String.toList_append, String.toList_append] at letters
  obtain ⟨numeral, _⟩ := first_foreign_unique letters (digits _) (digits _) (by decide) (by decide)
  have numeral : e.step.repr = e'.step.repr := String.toList_injective numeral
  rw [numeral, String.append_right_inj, String.append_right_inj] at line
  exact ⟨Nat.repr_injective numeral, Int.repr_injective line⟩

theorem report_eq_iff {n : ℕ} {i : ℤ} {entry : Option Entry} :
    report location fault (stepLines entry) =
        report location fault [s!"    Step: {n}  Instruction: {i}"] ↔
      ∃ place, entry = some ⟨n, i, place⟩ := by
  constructor
  · intro same
    have line := stepLines_of_report_eq same
    cases entry with
    | none => cases line
    | some e =>
      have line : stepLines (some e) = stepLines (some ⟨n, i, e.location⟩) := line
      obtain ⟨rfl, rfl⟩ := stepLines_inj line
      exact ⟨e.location, rfl⟩
  · rintro ⟨place, rfl⟩
    rfl

end Traceback

namespace Journal

variable {location : Location} {fault : Fault} {k : ℕ}

theorem traceback_located (h : location.statement ≠ []) (j : Journal) :
    j.traceback ⟨fault, some location, some location.statement, some k⟩ =
      j.entry.map fun entry => Traceback.report location fault (Traceback.stepLines entry) := by
  simp only [traceback, Traceback.intercalate_lines h h, Traceback.report]

theorem traceback_located_eq_ok_iff (h : location.statement ≠ []) (j : Journal) (n : ℕ) (i : ℤ) :
    j.traceback ⟨fault, some location, some location.statement, some k⟩ =
        .ok (Traceback.report location fault [s!"    Step: {n}  Instruction: {i}"]) ↔
      ∃ place, j.entry = .ok (some ⟨n, i, place⟩) := by
  rw [traceback_located h]
  cases j.entry with
  | error f => simp [Except.map]
  | ok entry => simpa [Except.map] using Traceback.report_eq_iff

end Journal

namespace Session

/-- The action begins no run: it only looks, it replaces the source, or its text is refused. -/
def Idle (s : Session) : Action → Prop
  | .run _ => ∃ e, s.parse = .error e
  | .execute _ _ => False
  | _ => True

def IdleFor : Session → List Action → Prop
  | _, [] => True
  | s, a :: history => s.Idle a ∧ (s.act a).2.IdleFor history

theorem journal_act_of_idle {s : Session} {a : Action} (h : s.Idle a) :
    (s.act a).2.journal = s.journal := by
  cases a with
  | run limit =>
    obtain ⟨e, refused⟩ := h
    rw [act, run_of_refused refused]
  | execute limit p => exact h.elim
  | _ => rfl

theorem journal_after_of_idleFor {s : Session} {history : List Action} (h : s.IdleFor history) :
    (s.after history).journal = s.journal := by
  induction history generalizing s with
  | nil => rfl
  | cons a history ih => exact (ih h.2).trans (journal_act_of_idle h.1)

end Session

/-- The report on a fault of the machine, shown after any further actions in the session. It names the
place and the command that failed, but the step and the index of the latest entry of the journal. As long
as no other run has begun these are the failing ones. In general the report is the one shown at once
exactly if the latest entry has the step and the index of the failure. -/
theorem later_report_eq_iff (s : Session) (p : Program) (limit n i : ℕ) (t : State) (c : Command)
    (fault : Fault) (accepted : s.parse = .ok p)
    (failing : FailsAt s.config p (s.machine p) n i t c fault.toFailure) (hn : n < limit) :
    ∃ location, p.locations[i]? = some (some location) ∧ location.statement = c.spelling ∧
      let error : RuntimeError := ⟨fault, some location, some c.spelling, some n⟩
      let atOnce := Traceback.report location fault [s!"    Step: {n}  Instruction: {i}"]
      (s.run limit).1 = .failed (.runtime error) ∧
      (s.run limit).2.2.journal.traceback error = .ok atOnce ∧
      ∀ history,
        let later := (s.run limit).2.2.after history
        (later.journal.traceback error = later.journal.entry.map fun entry =>
          Traceback.report location fault (Traceback.stepLines entry)) ∧
        ((s.run limit).2.2.IdleFor history → later.journal.traceback error = .ok atOnce) ∧
        (later.journal.traceback error = .ok atOnce ↔
          ∃ place, later.journal.entry = .ok (some ⟨n, i, place⟩)) := by
  obtain ⟨location, e, a, b, place, spelt, reports, _, shown, ran⟩ :=
    Session.traceback_of_failsAt accepted failing hn nofun
  have written : location.statement ≠ [] := spelt ▸ c.spelling_ne_nil
  cases reports with
  | wrapped other => exact absurd rfl (other _)
  | stamped =>
    refine ⟨location, place, spelt, ?_⟩
    rw [← spelt] at shown ran ⊢
    have atOnce : (s.run limit).2.2.journal.traceback
        ⟨fault, some location, some location.statement, some n⟩ =
          .ok (Traceback.report location fault [s!"    Step: {n}  Instruction: {i}"]) := by
      rw [ran]
      exact shown.trans (congrArg Except.ok (Traceback.intercalate_lines written written _))
    refine ⟨congrArg Prod.fst ran, atOnce, fun history => ⟨?_, fun idle => ?_, ?_⟩⟩
    · exact Journal.traceback_located written _
    · rw [Session.journal_after_of_idleFor idle]
      exact atOnce
    · exact Journal.traceback_located_eq_ok_iff written _ n i

theorem later_report_eq_iff_other_run :
    let s : Session :=
      { source := Command.moveLeft.spelling
        file := "edge"
        config := {}
        language := .standard
        input := .ofText [] }
    let twice := Command.increment.spelling ++ Command.increment.spelling
    ∃ error atOnce, (s.run 1).1 = .failed (.runtime error) ∧
      (s.run 1).2.2.journal.traceback error = .ok atOnce ∧
      ((s.run 1).2.2.after [.replaceSource twice, .parse]).journal.traceback error = .ok atOnce ∧
      ((s.run 1).2.2.after [.replaceSource twice, .run 2]).journal.traceback error ≠ .ok atOnce := by
  intro s twice
  have accepted : s.parse.toOption.map Program.commands = some #[.moveLeft] := by decide +kernel
  obtain ⟨p, parsed, commands⟩ := exists_ok_of_map accepted
  have failing : FailsAt s.config p (s.machine p) 0 0 (s.machine p) .moveLeft
      Fault.tapeUnderflow.toFailure :=
    ⟨.refl _, rfl, by rw [commands]; rfl, .underflow rfl⟩
  obtain ⟨location, _, _, failed, atOnce, later⟩ :=
    later_report_eq_iff s p 1 0 0 _ .moveLeft .tapeUnderflow parsed failing (by decide)
  obtain ⟨_, idle, _⟩ := later [.replaceSource twice, .parse]
  obtain ⟨_, _, same⟩ := later [.replaceSource twice, .run 2]
  refine ⟨_, _, failed, atOnce, idle ⟨trivial, trivial, trivial⟩, fun again => ?_⟩
  obtain ⟨place, entry⟩ := same.1 again
  have latest : ((s.run 1).2.2.after [.replaceSource twice, .run 2]).journal.entry.toOption.map
      (·.map Entry.step) = some (some 1) := by
    decide +kernel
  rw [entry] at latest
  cases latest

end SlangTape
