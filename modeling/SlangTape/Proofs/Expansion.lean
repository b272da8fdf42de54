import SlangTape.Proofs.Nesting

set_option autoImplicit false

namespace SlangTape

/-- What a command is written out as, with zeroing as a loop only if `loops` says so. -/
def Command.expansion (loops : Bool) : Command → List Command
  | .incrementTwo => [.increment, .increment]
  | .decrementTwo => [.decrement, .decrement]
  | .zero => if loops then [.loopStart, .decrement, .loopEnd] else [.zero]
  | c => [c]

def expand (loops : Bool) (cs : List Command) : List Command := cs.flatMap (Command.expansion loops)

def writesLoops (cs : List Command) : Bool := .skip ∉ cs

def expanded (cs : List Command) : List Command := expand (writesLoops cs) cs

/-- Where the command at `i` begins once all commands are written out. -/
def place (loops : Bool) (cs : List Command) (i : ℕ) : ℕ := (expand loops (cs.take i)).length

variable {loops : Bool} {cs ds : List Command} {c d : Command} {i k m n e : ℕ}

theorem length_expansion_pos (loops : Bool) (c : Command) : 0 < (c.expansion loops).length := by
  cases c with
  | zero => cases loops <;> decide
  | _ => exact Nat.succ_pos _

theorem eq_skip_of_mem_expansion (h : .skip ∈ c.expansion loops) : c = .skip := by
  cases c with
  | zero => cases loops <;> simp [Command.expansion] at h
  | _ => simp_all [Command.expansion]

theorem eq_loopEnd_of_mem_expansion (h : .loopEnd ∈ c.expansion false) : c = .loopEnd := by
  cases c <;> simp_all [Command.expansion]

theorem expand_append : expand loops (cs ++ ds) = expand loops cs ++ expand loops ds :=
  List.flatMap_append

theorem expand_take_append_drop (i : ℕ) :
    expand loops (cs.take i) ++ expand loops (cs.drop i) = expand loops cs := by
  rw [← expand_append, List.take_append_drop]

theorem place_succ (h : cs[i]? = some c) :
    place loops cs (i + 1) = place loops cs i + (c.expansion loops).length := by
  rw [place, List.take_add_one, h, expand_append, List.length_append]
  simp [place, expand]

theorem place_mono (loops : Bool) (cs : List Command) (h : i ≤ m) :
    place loops cs i ≤ place loops cs m := by
  obtain ⟨between, split⟩ := List.take_prefix_take_left (l := cs) h
  rw [place, place, ← split, expand_append, List.length_append]
  exact Nat.le_add_right _ _

theorem place_lt (loops : Bool) (here : cs[i]? = some c) (h : i < m) :
    place loops cs i < place loops cs m := by
  have later := place_mono loops cs (Nat.succ_le_of_lt h)
  have size := length_expansion_pos loops c
  rw [place_succ here] at later
  omega

theorem place_lt_length_iff : place loops cs i < (expand loops cs).length ↔ i < cs.length := by
  constructor
  · intro inside
    by_contra outside
    rw [place, List.take_of_length_le (Nat.le_of_not_lt outside)] at inside
    exact Nat.lt_irrefl _ inside
  · intro inside
    have before := place_lt loops (List.getElem?_eq_getElem inside) inside
    rwa [place, place, List.take_length] at before

theorem getElem?_place_of_none (h : cs[i]? = none) :
    (expand loops cs)[place loops cs i]? = none := by
  rw [List.getElem?_eq_none_iff] at h ⊢
  rw [place, List.take_of_length_le h]

theorem take_place : (expand loops cs).take (place loops cs i) = expand loops (cs.take i) := by
  rw [← expand_take_append_drop i, place, List.take_left' rfl]

theorem drop_place : (expand loops cs).drop (place loops cs i) = expand loops (cs.drop i) := by
  rw [← expand_take_append_drop i, place, List.drop_left' rfl]

theorem place_take (h : i ≤ m) : place loops (cs.take m) i = place loops cs i := by
  rw [place, place, List.take_take, Nat.min_eq_left h]

theorem expand_eq_append (h : cs[i]? = some c) :
    expand loops cs =
      expand loops (cs.take i) ++ (c.expansion loops ++ expand loops (cs.drop (i + 1))) := by
  calc
    expand loops cs = expand loops (cs.take i ++ c :: cs.drop (i + 1)) := by
      rw [← eq_take_cons_drop h]
    _ = _ := expand_append

theorem getElem?_place_add (h : cs[i]? = some c) (hk : k < (c.expansion loops).length) :
    (expand loops cs)[place loops cs i + k]? = (c.expansion loops)[k]? := by
  rw [expand_eq_append h, place, getElem?_length_add, List.getElem?_append_left hk]

theorem getElem?_place (h : cs[i]? = some c) (same : c.expansion loops = [c]) :
    (expand loops cs)[place loops cs i]? = some c := by
  have here := getElem?_place_add (k := 0) h (length_expansion_pos loops c)
  rwa [same] at here

theorem exists_place (h : (expand loops cs)[n]? = some d) :
    ∃ i k c, cs[i]? = some c ∧ n = place loops cs i + k ∧ (c.expansion loops)[k]? = some d := by
  induction cs generalizing n with
  | nil => cases h
  | cons c cs ih =>
    change (c.expansion loops ++ expand loops cs)[n]? = some d at h
    by_cases first : n < (c.expansion loops).length
    · rw [List.getElem?_append_left first] at h
      exact ⟨0, n, c, rfl, (Nat.zero_add n).symm, h⟩
    · rw [List.getElem?_append_right (Nat.le_of_not_lt first)] at h
      obtain ⟨i, k, b, here, there, found⟩ := ih h
      refine ⟨i + 1, k, b, here, ?_, found⟩
      have moved : place loops (c :: cs) (i + 1) = (c.expansion loops).length + place loops cs i :=
        List.length_append
      omega

theorem exists_place_of_own (own : ∀ c : Command, d ∈ c.expansion loops → c = d)
    (same : d.expansion loops = [d]) (h : (expand loops cs)[n]? = some d) :
    ∃ i, cs[i]? = some d ∧ n = place loops cs i := by
  obtain ⟨i, k, c, here, there, found⟩ := exists_place h
  obtain rfl := own c (List.mem_of_getElem? found)
  have inside := lt_length_of_getElem? found
  rw [same, List.length_singleton] at inside
  exact ⟨i, here, by omega⟩

theorem closesFrom_expand_iff {d : ℕ} :
    ClosesFrom .loopStart .loopEnd d (expand loops cs) ↔ ClosesFrom .loopStart .loopEnd d cs := by
  have distinct : Command.loopStart ≠ .loopEnd := by decide
  induction cs generalizing d with
  | nil => rfl
  | cons c cs ih =>
    change ClosesFrom _ _ d (c.expansion loops ++ expand loops cs) ↔ _
    cases c with
    | loopStart => simpa [Command.expansion, closesFrom_opening distinct] using ih
    | loopEnd =>
      cases d with
      | zero => simp [Command.expansion, not_closesFrom_closing distinct]
      | succ d => simpa [Command.expansion, closesFrom_closing distinct] using ih
    | zero =>
      cases loops with
      | false => simpa [Command.expansion, closesFrom_other] using ih
      | true =>
        simpa [Command.expansion, closesFrom_other, closesFrom_opening distinct,
          closesFrom_closing distinct] using ih
    | _ => simpa [Command.expansion, closesFrom_other] using ih

theorem balanced_expand_iff : Balanced (expand loops cs) ↔ Balanced cs := by
  rw [balanced_iff_closesFrom, balanced_iff_closesFrom, closesFrom_expand_iff]

theorem Partner.expand (h : Partner cs i m) :
    Partner (expand loops cs) (place loops cs i) (place loops cs m) := by
  refine ⟨place_lt loops h.start h.before, getElem?_place h.start rfl, getElem?_place h.stop rfl, ?_⟩
  have past : place loops cs i + 1 = place loops (cs.take m) (i + 1) := by
    rw [place_take h.before, place_succ h.start]
    rfl
  rw [take_place, past, drop_place, balanced_expand_iff]
  exact h.between

theorem Partner.place_branch (h : Partner cs i m) (p : Prop) [Decidable p] :
    (if p then place loops cs m + 1 else place loops cs i + 1) =
      place loops cs (if p then m + 1 else i + 1) := by
  split
  · exact (place_succ h.stop).symm
  · exact (place_succ h.start).symm

theorem partner_of_zero (h : cs[i]? = some .zero) :
    Partner (expand true cs) (place true cs i) (place true cs i + 2) := by
  have loop : Partner [.loopStart, .decrement, .loopEnd] 0 2 :=
    ⟨by decide, rfl, rfl, balanced_singleton (by decide) (by decide)⟩
  rw [expand_eq_append h]
  exact ((partner_append_left (by decide)).2 loop).append_left _

theorem NextEnd.expand (skip : cs[i]? = some .skip) (h : NextEnd cs i e) :
    NextEnd (expand false cs) (place false cs i) (place false cs e) := by
  obtain ⟨⟨after, stop⟩, least⟩ := h
  refine ⟨⟨place_lt false skip after, getElem?_place stop rfl⟩, fun n ⟨later, found⟩ => ?_⟩
  obtain ⟨e', stop', rfl⟩ := exists_place_of_own (fun _ => eq_loopEnd_of_mem_expansion) rfl found
  apply place_mono
  apply least ⟨?_, stop'⟩
  by_contra before
  have := place_mono false cs (Nat.le_of_not_lt before)
  omega

theorem Resolvable.expand (h : Resolvable cs) : Resolvable (expand loops cs) := by
  rw [resolvable_iff] at h ⊢
  refine ⟨balanced_expand_iff.2 h.1, fun n found => ?_⟩
  obtain ⟨i, skip, rfl⟩ := exists_place_of_own (fun _ => eq_skip_of_mem_expansion) rfl found
  obtain ⟨e, after, stop⟩ := h.2 i skip
  exact ⟨place loops cs e, place_lt loops skip after, getElem?_place stop rfl⟩

end SlangTape
