import Linux011.Inode.Identity

/-!
# Destroying an inode

An `iput` that finds no links decides to destroy the inode, and then sleeps in `truncate`, for as
long as the blocks of the file take. It has not locked the inode, and its identity is still in the
table: an `iget` of the same inode finds the entry, counts its reference and goes on. Then
`free_inode` meets a count of two, which its own check calls a panic.

As long as no `iget` does so, `free_inode` meets what it expects, and nobody is left with the entry
it clears.
-/

namespace Linux011.Inode

variable {ι : Type*} [DecidableEq ι] [Fintype ι] {s s' : Sys ι} {t : ι} {rest : List Frame} {i : Nat}

omit [DecidableEq ι] in
/-- Nobody else refers to an inode that is being destroyed. -/
theorem Inv.free_alone (I : Inv s) (hf : s.stack t = .freeInode i :: rest) :
    s.refs i = 1 ∧ (s.table.inode i).count = 1 ∧ (s.table.inode i).nlinks = 0 := by
  have hmem : Frame.freeInode i ∈ s.stack t := by rw [hf]; exact List.mem_cons_self
  have hone : s.refs i = 1 := I.alone i ⟨t, _, hmem, List.mem_cons_self⟩
  exact ⟨hone, (I.count i).trans hone, (I.claim t _ hmem).2⟩

omit [DecidableEq ι] in
theorem refs_eq_zero (h : s.refs i = 0) (u : ι) :
    (∀ r ∈ s.held u, r.i ≠ i) ∧ ∀ f ∈ s.stack u, i ∉ f.refs := by
  refine ⟨?_, fun f hf hi => Lib.tally_of_frame hf hi h⟩
  rintro r hr rfl
  exact Lib.tally_of_held hr h

/-- `free_inode` takes the last reference with it. -/
theorem Inv.freed (I : Inv s) {x : Choice} (hf : s.stack t = .freeInode i :: rest)
    (h : step s (.run t x) = some s') : s'.refs i = 0 := by
  obtain ⟨-, h⟩ := Option.ite_none_right_eq_some.mp h
  have hexec : exec s.table x (.freeInode i) = .next (s.table.modify i fun _ => .zero) [] := by
    obtain ⟨-, hcount, hlinks⟩ := I.free_alone hf
    simp only [exec]
    by_cases hd : (s.table.inode i).dev = 0
    · rw [if_pos hd]
    · rw [if_neg hd, if_neg (by omega), if_neg (not_not.mpr hlinks)]
  unfold runTask at h
  rw [hf] at h
  dsimp only at h
  rw [hexec] at h
  obtain rfl := Option.some.inj h
  have M : Move s (s.goto t (s.table.modify i fun _ => .zero) rest (s.held t) (some t)) t
      [.freeInode i] [] rest := Sys.goto_move hf rfl
  have hrefs := M.refs i
  have hone := (I.free_alone hf).1
  rw [Sys.goto_held] at hrefs
  simp only [List.flatMap_cons, List.flatMap_nil, Frame.refs, List.append_nil, List.count_nil,
    List.count_singleton, beq_self_eq_true, if_true] at hrefs
  show (s.goto t _ rest (s.held t) (some t)).refs i = 0
  omega

theorem delete_undisturbed (h : Lib.Reach step Undisturbed Sys.Start s)
    (hf : s.stack t = .freeInode i :: rest) :
    (s.table.inode i).count ≤ 1 ∧ (s.table.inode i).nlinks = 0 ∧
      ∀ x s', step s (.run t x) = some s' → ∀ u,
        (∀ r ∈ s'.held u, r.i ≠ i) ∧ ∀ f ∈ s'.stack u, i ∉ f.refs := by
  have I : Inv s := h.invariant (fun _ h0 => h0.inv) fun _ _ _ I hund hs => step_inv I hund hs
  obtain ⟨-, hcount, hlinks⟩ := I.free_alone hf
  exact ⟨hcount.le, hlinks, fun x s' hs => refs_eq_zero (I.freed hf hs)⟩

/-- The check of a closed run: no `iget` finds an entry. -/
def undisturbedCheck (s : Sys (Fin 2)) : Event (Fin 2) → Bool
  | .run t _ => match s.stack t with
    | .found _ _ _ _ :: _ => false
    | _ => true
  | _ => true

theorem undisturbed_of_check {s : Sys (Fin 2)} {e : Event (Fin 2)}
    (h : undisturbedCheck s e = true) : Undisturbed s e := by
  rintro t x dev num empty i rest u rfl hf
  rw [undisturbedCheck, hf] at h
  cases h

/-- Task 0 drops the last reference to an inode, and sleeps in `truncate`. -/
def destroyed : List (Event (Fin 2)) :=
  [.resume 0, .iget 0 1 5, .run 0 .done, .run 0 .done, .run 0 .done, .run 0 .done,
    .run 0 (.data .regular 1), .change 0 ⟨1, 1, 5⟩ 0, .iput 0 ⟨1, 1, 5⟩, .run 0 .done,
    .run 0 .done, .run 0 .sleep]

/-- Meanwhile task 1 gets another inode. -/
def foundAnother : List (Event (Fin 2)) :=
  [.resume 1, .iget 1 1 6, .run 1 .done, .run 1 .done, .run 1 .done, .run 1 .done,
    .run 1 (.data .regular 1), .leave 1, .resume 0, .run 0 .done]

theorem delete_undisturbed_another : ∃ s : Sys (Fin 2), s.stack 0 = [.freeInode 1] ∧
    (s.held 1).map (·.i) = [2] ∧ (s.table.inode 1).count ≤ 1 ∧ (s.table.inode 1).nlinks = 0 := by
  have hrun : (Lib.run (fun s e => (step s e).filter fun _ => undisturbedCheck s e) freshTable
      (destroyed ++ foundAnother)).map (fun s => (s.stack 0, (s.held 1).map (·.i))) =
        some ([.freeInode 1], [2]) := by decide
  obtain ⟨s, hs, hv⟩ := Option.map_eq_some_iff.mp hrun
  obtain ⟨hf, hheld⟩ := Prod.mk.inj hv
  have hreach : Lib.Reach step Undisturbed Sys.Start s :=
    Lib.Reach.ofChecked (fun _ _ _ _ hc => undisturbed_of_check hc) (.start freshTable_start) hs
  obtain ⟨hcount, hlinks, -⟩ := delete_undisturbed hreach hf
  exact ⟨s, hf, hheld, hcount, hlinks⟩

/-- Meanwhile task 1 gets that inode. -/
def foundAgain : List (Event (Fin 2)) :=
  [.resume 1, .iget 1 1 5, .run 1 .done, .run 1 .done, .run 1 .done, .run 1 .done, .run 1 .done,
    .run 1 .done, .leave 1, .resume 0, .run 0 .done]

/-- `free_inode` meets an inode that another task holds, and panics. -/
theorem delete_panics : ¬ ∀ s : Sys (Fin 2), Lib.Reach step (fun _ _ => True) Sys.Start s →
    ∀ t i rest, s.stack t = .freeInode i :: rest →
      (s.table.inode i).count ≤ 1 ∧ (s.table.inode i).nlinks = 0 := by
  intro hclaim
  have hrun : (Lib.run step freshTable (destroyed ++ foundAgain)).map
      (fun s => (s.stack 0, (s.table.inode 1).count)) = some ([.freeInode 1], 2) := by
    decide
  obtain ⟨s, hs, heq⟩ := Option.map_eq_some_iff.mp hrun
  obtain ⟨hf, hcount⟩ := Prod.mk.inj heq
  have hreach : Lib.Reach step (fun _ _ => True) Sys.Start s :=
    Lib.Reach.ofRun (fun _ _ => trivial) (.start freshTable_start) hs
  have := (hclaim s hreach 0 1 [] hf).1
  omega

end Linux011.Inode
