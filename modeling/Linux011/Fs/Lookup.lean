import Linux011.Fs.Namei

/-!
# What `find_entry` finds

The entries of a directory are those in the blocks that are there; `find_entry` returns the first
one, among as many as it looks at, that carries the name. It leaves the buffer of that entry in use,
and nothing else.
-/

namespace Linux011.Fs

open Inode (Dev)

variable {fs : State} {t : Task} {d m i : Id}

/-! ## Counters that are given back -/

theorem brelse_bread (fs : State) (dev : Dev) (block : Block) :
    (fs.bread dev block).brelse dev block = fs := by
  have h : ((fs.bread dev block).brelse dev block).bcount = fs.bcount := by
    funext d b
    simp only [State.bread, State.brelse]
    by_cases hdb : d = dev ∧ b = block
    · rw [if_pos hdb, if_pos hdb, Nat.add_sub_cancel]
    · rw [if_neg hdb, if_neg hdb]
  calc (fs.bread dev block).brelse dev block
      = { fs with bcount := ((fs.bread dev block).brelse dev block).bcount } := rfl
    _ = fs := by rw [h]

theorem drop_hold (fs : State) (i : Id) : (fs.hold i).drop i = fs := by
  have h : ((fs.hold i).drop i).count = fs.count := by
    apply DFunLike.coe_injective
    simp only [State.hold, State.drop, DFinsupp.coe_update, Function.update_self, Function.update_idem,
      Nat.add_sub_cancel, Function.update_eq_self]
  calc (fs.hold i).drop i = { fs with count := ((fs.hold i).drop i).count } := rfl
    _ = fs := by rw [h]

/-- A reference that is given back, when the inode has links or somebody else refers to it. -/
theorem iput_hold (h : (fs.inode i).nlinks ≠ 0 ∨ 0 < fs.count i) : (fs.hold i).iput i = fs := by
  have hcount : (fs.hold i).count i = fs.count i + 1 := Function.update_self ..
  unfold State.iput
  split
  · exact drop_hold fs i
  · next hone =>
    rw [hcount] at hone
    have hlinks : ((fs.hold i).inode i).nlinks ≠ 0 := h.resolve_right fun hpos => hone (Or.inr (by omega))
    rw [if_neg hlinks]
    exact drop_hold fs i

/-- A reference that is given back, in any case: the counters are as they were. -/
theorem iput_hold_counts (fs : State) (i : Id) :
    ((fs.hold i).iput i).count = fs.count ∧ ((fs.hold i).iput i).bcount = fs.bcount := by
  by_cases h : (fs.inode i).nlinks ≠ 0 ∨ 0 < fs.count i
  · rw [iput_hold h]
    exact ⟨rfl, rfl⟩
  · obtain ⟨-, hcount⟩ := not_or.mp h
    have hzero : fs.count i = 0 := by omega
    unfold State.iput
    split
    · rw [drop_hold]
      exact ⟨rfl, rfl⟩
    · split
      · refine ⟨DFunLike.coe_injective ?_, rfl⟩
        simp only [State.destroy, State.hold, DFinsupp.coe_update, Function.update_idem]
        rw [← hzero, Function.update_eq_self]
      · rw [drop_hold]
        exact ⟨rfl, rfl⟩

/-! ## Entries -/

/-- Entry `j` of a directory, if its block is there, with the block. -/
def entryAt (fs : State) (m : Id) (j : Nat) : Option (Block × DirEntry) :=
  let block := (fs.inode m).zone (j / 64)
  if block = 0 then none else some (block, fs.dirBlock m.dev block (j % 64))

/-- Entry `j`, if it satisfies `p`. -/
def hit (fs : State) (m : Id) (p : DirEntry → Bool) (j : Nat) : Option (Block × DirEntry) :=
  (entryAt fs m j).filter fun e => p e.2

/-- The first of `n` entries that satisfies `p`. -/
def firstEntry (fs : State) (m : Id) (n : Nat) (p : DirEntry → Bool) : Option (Block × DirEntry) :=
  (List.range n).findSome? (hit fs m p)

theorem hit_of_zone {p : DirEntry → Bool} {j : Nat} (h : (fs.inode m).zone (j / 64) = 0) :
    hit fs m p j = none := by
  rw [hit, entryAt]
  simp only [h, if_true]
  rfl

theorem hit_eq {p : DirEntry → Bool} {j : Nat} (h : (fs.inode m).zone (j / 64) ≠ 0) :
    hit fs m p j =
      if p (fs.dirBlock m.dev ((fs.inode m).zone (j / 64)) (j % 64)) then
        some ((fs.inode m).zone (j / 64), fs.dirBlock m.dev ((fs.inode m).zone (j / 64)) (j % 64))
      else none := by
  rw [hit, entryAt]
  simp only [h, if_false]
  rfl

/-- The search from entry `i` on. -/
def searchFrom (fs : State) (m : Id) (p : DirEntry → Bool) (entries i : Nat) :
    Option (Block × DirEntry) :=
  (List.range' i (entries - i)).findSome? (hit fs m p)

theorem searchFrom_end {p : DirEntry → Bool} {entries j : Nat} (h : entries ≤ j) :
    searchFrom fs m p entries j = none := by
  rw [searchFrom, Nat.sub_eq_zero_of_le h]
  rfl

theorem searchFrom_step {p : DirEntry → Bool} {entries j : Nat} (h : j < entries) :
    searchFrom fs m p entries j = (hit fs m p j).or (searchFrom fs m p entries (j + 1)) := by
  have hlen : entries - j = entries - (j + 1) + 1 := by omega
  rw [searchFrom, hlen, List.range'_succ, List.findSome?_cons, searchFrom]
  cases hit fs m p j <;> rfl

/-- A block that is not there is skipped. -/
theorem searchFrom_skip {p : DirEntry → Bool} {entries j : Nat} (k : Nat)
    (h : ∀ l, j ≤ l → l < j + k → hit fs m p l = none) :
    searchFrom fs m p entries j = searchFrom fs m p entries (j + k) := by
  induction k with
  | zero => rfl
  | succ k ih =>
    rw [ih fun l h1 h2 => h l h1 (by omega)]
    by_cases hk : j + k < entries
    · rw [searchFrom_step hk, h (j + k) (by omega) (by omega)]
      rfl
    · rw [searchFrom_end (by omega), searchFrom_end (by omega)]

/-- The buffer of a block is in use. -/
def holding (fs : State) (dev : Dev) (bh : Option Block) : State := (bh.map (fs.bread dev)).getD fs

theorem holding_release (fs : State) (dev : Dev) (bh : Option Block) :
    (bh.map ((holding fs dev bh).brelse dev)).getD (holding fs dev bh) = fs := by
  cases bh with
  | none => rfl
  | some block => exact brelse_bread fs dev block

/-- The loop of `find_entry`. -/
theorem scan_eq (fs : State) (m : Id) (entries len : Nat) (name : List Byte) (n j : Nat)
    (bh : Option Block) (hn : entries ≤ j + n)
    (hbh : (j % 64 = 0 ∧ j ≠ 0) ∨
      (bh = some ((fs.inode m).zone (j / 64)) ∧ (fs.inode m).zone (j / 64) ≠ 0)) :
    scan (fs.inode m) m.dev entries len name n j bh (holding fs m.dev bh) =
      (searchFrom fs m (matchName len name) entries j,
        holding fs m.dev ((searchFrom fs m (matchName len name) entries j).map Prod.fst)) := by
  induction n generalizing j bh with
  | zero =>
    rw [searchFrom_end (by omega)]
    exact congrArg (Prod.mk none) (holding_release fs m.dev bh)
  | succ n ih =>
    -- entry `j`, when its block is there
    have hstep : j < entries → ∀ block, block = (fs.inode m).zone (j / 64) → block ≠ 0 →
        (if matchName len name (fs.dirBlock m.dev block (j % 64)) then
          (some (block, fs.dirBlock m.dev block (j % 64)), fs.bread m.dev block)
        else scan (fs.inode m) m.dev entries len name n (j + 1) (some block)
          (fs.bread m.dev block)) =
        (searchFrom fs m (matchName len name) entries j,
          holding fs m.dev ((searchFrom fs m (matchName len name) entries j).map Prod.fst)) := by
      rintro hlt block rfl hzone
      rw [searchFrom_step hlt, hit_eq hzone]
      split
      · rfl
      · refine ih (j + 1) (some _) (by omega) ?_
        by_cases hnext : (j + 1) % 64 = 0
        · exact Or.inl ⟨hnext, Nat.succ_ne_zero j⟩
        · refine Or.inr ⟨?_, ?_⟩
          · rw [show (j + 1) / 64 = j / 64 by omega]
          · rw [show (j + 1) / 64 = j / 64 by omega]
            exact hzone
    unfold scan
    by_cases hend : entries ≤ j
    · rw [if_pos hend, searchFrom_end hend, holding_release]
      rfl
    rw [if_neg hend]
    by_cases hblock : j % 64 = 0 ∧ j ≠ 0
    · rw [if_pos hblock]
      simp only [holding_release]
      by_cases hzone : (fs.inode m).zone (j / 64) = 0
      · rw [if_pos hzone, searchFrom_skip 64 fun l h1 h2 => hit_of_zone ?_]
        · exact ih (j + 64) none (by omega) (Or.inl (by omega))
        · rw [show l / 64 = j / 64 by omega]
          exact hzone
      · rw [if_neg hzone]
        have := hstep (Nat.lt_of_not_le hend) _ rfl hzone
        rw [hblock.1] at this
        exact this
    · rw [if_neg hblock]
      obtain ⟨rfl, hzone⟩ := hbh.resolve_left hblock
      exact hstep (Nat.lt_of_not_le hend) _ rfl hzone

/-! ## `find_entry` -/

/-- The name of the entry: up to the first NUL, 14 bytes at most. -/
def DirEntry.chars (de : DirEntry) : List Byte :=
  ((List.range 14).map de.name).takeWhile fun c => c ≠ 0

/-- A live entry with this name. -/
def DirEntry.named (name : List Byte) (de : DirEntry) : Bool := de.inodenr ≠ 0 ∧ de.chars = name

theorem takeWhile_eq_iff {α : Type*} {p : α → Bool} {l k : List α} :
    l.takeWhile p = k ↔ (∀ x ∈ k, p x = true) ∧ k <+: l ∧ ∀ x, l[k.length]? = some x → p x = false := by
  induction l generalizing k with
  | nil =>
    rw [List.takeWhile_nil, List.prefix_nil]
    refine ⟨?_, fun h => h.2.1.symm⟩
    rintro rfl
    exact ⟨nofun, rfl, nofun⟩
  | cons a l ih =>
    cases hp : p a with
    | true =>
      rw [List.takeWhile_cons_of_pos hp]
      cases k with
      | nil => simp [hp]
      | cons b k =>
        rw [List.cons_eq_cons, ih, List.cons_prefix_cons, List.length_cons, List.getElem?_cons_succ,
          List.forall_mem_cons]
        constructor
        · rintro ⟨rfl, h1, h2, h3⟩
          exact ⟨⟨hp, h1⟩, ⟨rfl, h2⟩, h3⟩
        · rintro ⟨⟨-, h1⟩, ⟨rfl, h2⟩, h3⟩
          exact ⟨rfl, h1, h2, h3⟩
    | false =>
      rw [List.takeWhile_cons_of_neg (by rw [hp]; nofun)]
      cases k with
      | nil => simp [hp]
      | cons b k =>
        rw [List.cons_prefix_cons, List.forall_mem_cons]
        refine ⟨nofun, ?_⟩
        rintro ⟨⟨hb, -⟩, ⟨rfl, -⟩, -⟩
        rw [hp] at hb
        cases hb

/-- `match` compares names. -/
theorem matchName_eq {name : List Byte} {len : Nat} (hlen : len ≤ 14) (hname : len ≤ name.length)
    (h0 : 0 ∉ name) (de : DirEntry) : matchName len name de = de.named (name.take len) := by
  have hk : (name.take len).length = len := List.length_take_of_le hname
  have hget : ∀ (i : Nat) (hi : i < len), name.getD i 0 = name[i] := fun i hi => by
    rw [List.getD_eq_getElem?_getD, List.getElem?_eq_getElem]
    rfl
  have hne : ∀ x ∈ name.take len, decide (x ≠ 0) = true := fun x hx => decide_eq_true fun h =>
    h0 (h ▸ List.mem_of_mem_take hx)
  rw [matchName, DirEntry.named, DirEntry.chars, decide_eq_decide]
  refine and_congr Iff.rfl ?_
  rw [takeWhile_eq_iff, hk, List.prefix_iff_getElem]
  simp only [hk, List.length_map, List.length_range, List.getElem_take, List.getElem_map,
    List.getElem_range, List.getElem?_map]
  constructor
  · rintro ⟨-, hend, hsame⟩
    refine ⟨hne, ⟨hlen, fun i hi => ?_⟩, fun x hx => ?_⟩
    · rw [← hsame i hi, hget i hi]
    · obtain ⟨l, hl, rfl⟩ := Option.map_eq_some_iff.mp hx
      obtain ⟨hlt, hl⟩ := List.getElem?_eq_some_iff.mp hl
      rw [List.length_range] at hlt
      rw [List.getElem_range] at hl
      rw [← hl, hend hlt]
      rfl
  · rintro ⟨-, ⟨-, hsame⟩, hend⟩
    refine ⟨hlen, fun hlt => ?_, fun i hi => ?_⟩
    · have := hend (de.name len) (by rw [List.getElem?_range hlt]; rfl)
      exact of_not_not (of_decide_eq_false this)
    · rw [← hsame i hi, hget i hi]

theorem firstEntry_eq (fs : State) (m : Id) (n : Nat) (p : DirEntry → Bool) :
    searchFrom fs m p n 0 = firstEntry fs m n p := by
  rw [searchFrom, firstEntry, Nat.sub_zero, ← List.range_eq_range']

/-- A directory without its first block is empty. -/
def Solid (h : MInode) : Prop := h.zone 0 = 0 → ∀ b, h.zone b = 0

theorem firstEntry_of_zone {n : Nat} {p : DirEntry → Bool} (hsolid : Solid (fs.inode m))
    (h : (fs.inode m).zone 0 = 0) : firstEntry fs m n p = none := by
  rw [firstEntry, List.findSome?_eq_none_iff]
  exact fun j _ => hit_of_zone (hsolid h _)

/-- The search through the blocks. -/
theorem findIn_eq {name : List Byte} {entries len : Nat} (h0 : 0 ∉ name) (h14 : len ≤ 14)
    (hlen : len ≤ name.length) (hsolid : Solid (fs.inode m)) :
    findIn fs m entries len name =
      (firstEntry fs m entries (DirEntry.named (name.take len)),
        holding fs m.dev ((firstEntry fs m entries (DirEntry.named (name.take len))).map Prod.fst)) := by
  have hfun : matchName len name = DirEntry.named (name.take len) :=
    funext (matchName_eq h14 hlen h0)
  simp only [findIn]
  split
  · next hz =>
    rw [firstEntry_of_zone hsolid hz]
    rfl
  · next hz =>
    have hscan := scan_eq fs m entries len name entries 0 (some ((fs.inode m).zone 0)) (by omega)
      (Or.inr ⟨rfl, hz⟩)
    rw [firstEntry_eq, hfun] at hscan
    exact hscan

theorem dotdot_iff {name : List Byte} {len : Nat} (hlen : len ≤ name.length) :
    (len = 2 ∧ name.getD 0 0 = 46 ∧ name.getD 1 0 = 46) ↔ name.take len = [46, 46] := by
  constructor
  · rintro ⟨rfl, h0, h1⟩
    match name, hlen with
    | a :: b :: name, _ =>
      simp only [List.getD_cons_zero, List.getD_cons_succ] at h0 h1
      rw [h0, h1]
      rfl
  · intro h
    have h2 : len = 2 := by
      rw [← List.length_take_of_le hlen, h]
      rfl
    subst h2
    match name, hlen with
    | a :: b :: name, _ =>
      simp only [List.take_succ_cons, List.take_zero, List.cons.injEq, and_true] at h
      exact ⟨rfl, h.1, h.2⟩

/-- The directory that `find_entry` looks in, and the name it looks for. -/
def place (t : Task) (fs : State) (d : Id) (name : List Byte) : Id × List Byte :=
  if name = [46, 46] then
    if d = t.root then (d, [46])
    else
      match mountPoint fs d with
      | some m => (m, name)
      | none => (d, name)
  else (d, name)

/-- The references after the check for `..`. -/
def exchanged (t : Task) (fs : State) (d : Id) (name : List Byte) : State :=
  if name = [46, 46] ∧ d ≠ t.root then
    match mountPoint fs d with
    | some m => (fs.iput d).hold m
    | none => fs
  else fs

theorem dotdot_eq (t : Task) (fs : State) (d : Id) {name : List Byte} {len : Nat} (hlen : len ≤ name.length) :
    ∃ len', len' ≤ len ∧ dotdot t fs d name len =
      ((place t fs d (name.take len)).1, len', exchanged t fs d (name.take len)) ∧
      name.take len' = (place t fs d (name.take len)).2 := by
  unfold dotdot place exchanged
  by_cases hdot : name.take len = [46, 46]
  · obtain ⟨rfl, h0, h1⟩ := (dotdot_iff hlen).mpr hdot
    rw [if_pos ⟨rfl, h0, h1⟩, if_pos hdot]
    by_cases hroot : d = t.root
    · rw [if_pos hroot, if_pos hroot, if_neg fun h => h.2 hroot]
      refine ⟨1, by omega, rfl, ?_⟩
      have htake : (name.take 2).take 1 = name.take 1 := by
        rw [List.take_take]
        rfl
      rw [← htake, hdot]
      rfl
    · rw [if_neg hroot, if_neg hroot, if_pos ⟨hdot, hroot⟩]
      cases mountPoint fs d with
      | none => exact ⟨2, Nat.le_refl 2, rfl, rfl⟩
      | some m => exact ⟨2, Nat.le_refl 2, rfl, rfl⟩
  · rw [if_neg fun h => hdot ((dotdot_iff hlen).mp h), if_neg hdot, if_neg fun h => hdot h.1]
    exact ⟨len, Nat.le_refl len, rfl, rfl⟩

/-- What `find_entry` returns, for a name that is not empty. -/
theorem findEntry_eq {name : List Byte} {namelen : Nat} (h0 : 0 ∉ name) (hpos : namelen ≠ 0)
    (hlen : namelen ≤ name.length) {key : List Byte} (hkey : key = name.take (min namelen 14))
    {fs' : State} (hfs : exchanged t fs d key = fs')
    (hsolid : Solid (fs'.inode (place t fs d key).1)) :
    findEntry t fs d name namelen = ((place t fs d key).1,
      firstEntry fs' (place t fs d key).1 ((fs.inode d).size / 16)
        (DirEntry.named (place t fs d key).2),
      holding fs' (place t fs d key).1.dev ((firstEntry fs' (place t fs d key).1
        ((fs.inode d).size / 16) (DirEntry.named (place t fs d key).2)).map Prod.fst)) := by
  have hmin : (if namelen > 14 then 14 else namelen) = min namelen 14 := by
    split <;> omega
  have hminlen : min namelen 14 ≤ name.length := by omega
  obtain ⟨len', hle, hdot, htake⟩ := dotdot_eq t fs d hminlen
  subst hkey hfs
  unfold findEntry
  rw [hmin]
  simp only [hdot]
  rw [if_neg (by omega), findIn_eq h0 (by omega) (by omega) hsolid, htake]

end Linux011.Fs
