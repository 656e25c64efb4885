import Mathlib.Tactic.Ring
import Linux011.Boot.Bootsect

/-!
# The system is loaded (`read_it`)

For every number of sectors per track that leaves something of the first track behind the setup sectors,
`read_it` loads the sectors behind them in their order, whatever reads fail on the way, as long as none
fails for ever. Every read stays in its track and in its segment.
-/

namespace Linux011.Boot

variable {bios : Bios} {m : Mem} {s t : State} {L n : Nat}

/-! ## The diskette as one image -/

/-- Byte `i` of the diskette: the sectors of a track, then the other head, then the next track. -/
def Bios.image (bios : Bios) (i : Nat) : Byte :=
  let k := i / 512
  bios.disk (k / bios.sectors / 2) (k / bios.sectors % 2) (k % bios.sectors + 1) (i % 512)

/-- A read that the controller can do: inside a track, and inside a segment of 64kB. -/
structure Read.Fine (sectors : Nat) (r : Read) : Prop where
  count : 0 < r.count
  sector : 1 ≤ r.sector
  track : r.sector + r.count ≤ sectors + 1
  head : r.head < 2
  segment : r.bx + 512 * r.count ≤ 2 ^ 16

/-- Sectors of one track are a piece of the image. -/
theorem found_eq {r : Read} {track head sread i : Nat} (hr : r.cylinder = track ∧ r.head = head ∧
      r.sector = sread + 1) (hhead : head < 2) (hfit : sread + n ≤ bios.sectors) (hi : i < 512 * n) :
    bios.found r i = bios.image (512 * ((2 * track + head) * bios.sectors + sread) + i) := by
  obtain ⟨rfl, rfl, hsector⟩ := hr
  have hj : sread + i / 512 < bios.sectors := by omega
  have hk : (512 * ((2 * r.cylinder + r.head) * bios.sectors + sread) + i) / 512 =
      sread + i / 512 + bios.sectors * (2 * r.cylinder + r.head) := by
    rw [Nat.mul_comm bios.sectors]
    omega
  have hpos : 0 < bios.sectors := by omega
  unfold Bios.found Bios.image
  dsimp only
  rw [hk, Nat.add_mul_div_left _ _ hpos, Nat.div_eq_of_lt hj, Nat.add_mul_mod_self_left,
    Nat.mod_eq_of_lt hj, hsector, Nat.mul_add_mod]
  congr 1
  · omega
  · omega
  · omega

/-! ## One read -/

/-- No read fails for ever. -/
def Bios.Works (bios : Bios) : Prop := ∀ n, ∃ k, n ≤ k ∧ bios.fails k = false

/-- The read that `read_track` asks for. -/
def State.request (s : State) (ax : Nat) : Read :=
  let cl := word (s.sread + 1) % 256
  ⟨ax % 256, s.track % 256 + 256 * (cl / 64), cl % 64, s.head % 256 % 2, 0, s.es, s.bx⟩

/-- What a good read, after any number of bad ones, leaves behind. -/
structure Brought (bios : Bios) (r : Read) (s t : State) : Prop where
  state : t = { s with
    mem := Lib.overlay s.mem (16 * r.es + r.bx) (512 * r.count) (bios.found r)
    reads := t.reads }
  reads : ∀ q ∈ t.reads, q = r ∨ q ∈ s.reads

theorem int13_brought (r : Read) (s : State) (hgood : bios.fails s.reads.length = false) :
    Brought bios r s (int13 bios r s).2 := by
  refine ⟨?_, fun q hq => List.mem_cons.mp hq⟩
  unfold int13
  dsimp only
  rw [hgood, if_neg Bool.false_ne_true]

/-- A bad read is written over by the next. -/
theorem Brought.again {r : Read} (h : Brought bios r (int13 bios r s).2 t) : Brought bios r s t := by
  refine ⟨?_, fun q hq => ?_⟩
  · rw [h.state]
    unfold int13
    dsimp only
    rw [Lib.overlay_overlay]
  · rcases h.reads q hq with rfl | hq
    · exact Or.inl rfl
    · exact List.mem_cons.mp hq

/-- A loop that reads until a read is good. `P` is what the request depends on. -/
theorem retry (loop : Nat → State → Option State) {P : State → Prop} {r : Read}
    (hloop : ∀ fuel s, P s → loop (fuel + 1) s =
      if bios.fails s.reads.length then loop fuel (int13 bios r s).2 else some (int13 bios r s).2)
    (hP : ∀ s, P s → P (int13 bios r s).2) (hworks : bios.Works) (s : State) (hs : P s) :
    ∃ N t, (∀ fuel, N ≤ fuel → loop fuel s = some t) ∧ Brought bios r s t := by
  obtain ⟨k, hk, hgood⟩ := hworks s.reads.length
  obtain ⟨d, rfl⟩ := Nat.exists_eq_add_of_le hk
  clear hk
  induction d generalizing s with
  | zero =>
    rw [Nat.add_zero] at hgood
    refine ⟨1, _, fun fuel hfuel => ?_, int13_brought r s hgood⟩
    obtain ⟨n, rfl⟩ := Nat.exists_eq_add_of_le' hfuel
    rw [hloop n s hs, hgood, if_neg Bool.false_ne_true]
  | succ d ih =>
    by_cases hfirst : bios.fails s.reads.length = true
    · have hlater : bios.fails ((int13 bios r s).2.reads.length + d) = false := by
        rw [← hgood]
        refine congrArg bios.fails ?_
        show s.reads.length + 1 + d = _
        omega
      obtain ⟨N, t, ht, hbrought⟩ := ih (int13 bios r s).2 (hP s hs) hlater
      refine ⟨N + 1, t, fun fuel hfuel => ?_, hbrought.again⟩
      obtain ⟨n, rfl⟩ := Nat.exists_eq_add_of_le' hfuel
      rw [← Nat.add_assoc, hloop (n + N) s hs, hfirst, if_pos rfl]
      exact ht _ (by omega)
    · rw [Bool.not_eq_true] at hfirst
      refine ⟨1, _, fun fuel hfuel => ?_, int13_brought r s hfirst⟩
      obtain ⟨n, rfl⟩ := Nat.exists_eq_add_of_le' hfuel
      rw [hloop n s hs, hfirst, if_neg Bool.false_ne_true]

theorem readTrack_spec (hworks : bios.Works) (ax : Nat) (s : State) :
    ∃ N t, (∀ tries, N ≤ tries → readTrack bios tries ax s = some t) ∧
      Brought bios (s.request ax) s t :=
  retry (fun tries s => readTrack bios tries ax s) (P := fun u => u.request ax = s.request ax)
    (fun _ _ hu => hu ▸ rfl) (fun _ hu => hu) hworks s rfl

theorem loadSetup_spec (hworks : bios.Works) (s : State) :
    ∃ N t, (∀ fuel, N ≤ fuel → loadSetup bios fuel s = some t) ∧
      Brought bios ⟨setupLen, 0, 2, 0, 0, initSeg, 0x200⟩ s t :=
  retry (loadSetup bios) (P := fun _ => True) (fun _ _ _ => rfl) (fun _ _ => trivial) hworks s trivial

/-! ## The loop -/

/-- `L` sectors of the system are loaded into `m`. The next one is on `track` and `head`, behind the
`sread` sectors that were read of the track, and goes to `es:bx`. -/
structure Loaded (bios : Bios) (m : Mem) (L : Nat) (s : State) : Prop where
  sectors : s.sectors = bios.sectors
  sread : s.sread < bios.sectors
  head : s.head < 2
  place : (2 * s.track + s.head) * bios.sectors + s.sread = 5 + L
  segment : ∃ q, s.es = 0x1000 * q
  bx : s.bx < 2 ^ 16
  address : 16 * s.es + s.bx = 0x10000 + 512 * L
  most : L ≤ 384
  mem : s.mem = Lib.overlay m 0x10000 (512 * L) fun i => bios.image (2560 + i)
  fine : ∀ r ∈ s.reads, r.Fine bios.sectors

/-- The rest of the track, or of the segment. -/
theorem Loaded.rest_eq (h : Loaded bios m L s) (hsectors : bios.sectors < 64) :
    rest s = min (bios.sectors - s.sread) (128 - s.bx / 512) ∧ s.bx % 512 = 0 := by
  have hread := h.sread
  have hbx := h.bx
  obtain ⟨q, hq⟩ := h.segment
  have haddr := h.address
  have hmod : s.bx % 512 = 0 := by omega
  refine ⟨?_, hmod⟩
  unfold rest word
  dsimp only
  rw [h.sectors]
  split <;> omega

theorem Loaded.track_lt (h : Loaded bios m L s) (hsectors : 5 < bios.sectors) : s.track < 256 := by
  have hplace := h.place
  have hmost := h.most
  have hle : (2 * s.track + s.head) * 6 ≤ (2 * s.track + s.head) * bios.sectors :=
    Nat.mul_le_mul_left _ hsectors
  omega

/-- The request is for the next sectors. -/
theorem Loaded.request (h : Loaded bios m L s) (h5 : 5 < bios.sectors) (h63 : bios.sectors < 64) :
    s.request (rest s) = ⟨rest s, s.track, s.sread + 1, s.head, 0, s.es, s.bx⟩ := by
  have hrest := (h.rest_eq h63).1
  have htrack := h.track_lt h5
  have hread := h.sread
  have hhead := h.head
  unfold State.request word
  dsimp only
  rw [Read.mk.injEq]
  refine ⟨by omega, by omega, by omega, by omega, rfl, rfl, rfl⟩

/-- The sectors of a track are counted up; behind the last one comes the other head, or the next
track. -/
theorem advance_spec (hfit : s.sread + n ≤ s.sectors) (h63 : s.sectors < 64) (hread : s.sread < s.sectors)
    (hhead : s.head < 2) (htrack : s.track < 256) :
    (advance n s).sread < s.sectors ∧ (advance n s).head < 2 ∧
      (2 * (advance n s).track + (advance n s).head) * s.sectors + (advance n s).sread =
        (2 * s.track + s.head) * s.sectors + s.sread + n ∧
      advance n s = { s with
        sread := (advance n s).sread, head := (advance n s).head, track := (advance n s).track } := by
  have hword : word (n + s.sread) = n + s.sread := Nat.mod_eq_of_lt (by omega)
  unfold advance
  dsimp only
  rw [hword]
  by_cases hlast : n + s.sread = s.sectors
  · rw [if_pos hlast]
    dsimp only
    have hcases : s.head = 0 ∨ s.head = 1 := by omega
    have hplace : (2 * s.track + s.head + 1) * s.sectors =
        (2 * s.track + s.head) * s.sectors + s.sread + n := by
      rw [Nat.succ_mul]
      omega
    refine ⟨by omega, ?_, ?_, rfl⟩
    · rcases hcases with h | h <;> rw [h] <;> decide
    · rw [← hplace, Nat.add_zero]
      congr 1
      rcases hcases with h | h
      · have hone : word (1 + 2 ^ 16 - 0) = 1 := by decide
        rw [h, hone, if_neg (by decide)]
      · rw [h, if_pos (by decide)]
        have hnext : word (s.track + 1) = s.track + 1 := Nat.mod_eq_of_lt (by omega)
        have hzero : word (1 + 2 ^ 16 - 1) = 0 := by decide
        rw [hnext, hzero]
        omega
  · rw [if_neg hlast]
    exact ⟨by dsimp only; omega, hhead, by dsimp only; omega, rfl⟩

/-- The address moves on, into the next segment where this one is full. -/
theorem forward_spec (h63 : n < 64) (hfit : s.bx + 512 * n ≤ 2 ^ 16) {q : Nat}
    (hes : s.es = 0x1000 * q) (hlow : s.es < 0x4000) :
    (∃ q, (forward n s).es = 0x1000 * q) ∧ (forward n s).bx < 2 ^ 16 ∧
      16 * (forward n s).es + (forward n s).bx = 16 * s.es + s.bx + 512 * n ∧
      forward n s = { s with es := (forward n s).es, bx := (forward n s).bx } := by
  have hcx : word (n * 2 ^ 9) = 512 * n := by
    unfold word
    omega
  unfold forward
  dsimp only
  rw [hcx]
  split
  · next hstay => exact ⟨⟨q, hes⟩, hstay, by dsimp only; omega, rfl⟩
  · have hword : word (s.es + 0x1000) = 0x1000 * (q + 1) := by
      unfold word
      omega
    exact ⟨⟨q + 1, hword⟩, by dsimp only; omega, by dsimp only; omega, rfl⟩

/-- One round. -/
theorem Loaded.round (h : Loaded bios m L s) (h5 : 5 < bios.sectors) (h63 : bios.sectors < 64)
    (hL : L < 384) (hbrought : Brought bios (s.request (rest s)) s t) :
    0 < rest s ∧ Loaded bios m (L + rest s) (forward (rest s) (advance (rest s) t)) := by
  obtain ⟨hrest, hmod⟩ := h.rest_eq h63
  have hread := h.sread
  have hbx := h.bx
  have haddr := h.address
  have hpos : 0 < rest s := by omega
  have hfit : s.sread + rest s ≤ bios.sectors := by omega
  have hseg : s.bx + 512 * rest s ≤ 2 ^ 16 := by omega
  rw [h.request h5 h63] at hbrought
  obtain ⟨hstate, hreads⟩ := hbrought
  dsimp only at hstate
  -- what the read brought is the next piece of the image
  have hmem : t.mem = Lib.overlay m 0x10000 (512 * (L + rest s)) fun i => bios.image (2560 + i) := by
    rw [hstate]
    dsimp only
    rw [h.mem, h.address, Nat.mul_add, ← Lib.overlay_append (f := fun i => bios.image (2560 + i))]
    refine Lib.overlay_congr fun i hi => ?_
    rw [found_eq ⟨rfl, rfl, rfl⟩ h.head hfit hi, h.place]
    congr 1
    omega
  have hfine : ∀ r ∈ t.reads, r.Fine bios.sectors := by
    intro r hr
    rcases hreads r hr with rfl | hr
    · exact ⟨hpos, Nat.le_add_left 1 _, by dsimp only; omega, h.head, hseg⟩
    · exact h.fine r hr
  have hsame : t.sread = s.sread ∧ t.head = s.head ∧ t.track = s.track ∧ t.sectors = s.sectors ∧
      t.es = s.es ∧ t.bx = s.bx := by
    rw [hstate]
    exact ⟨rfl, rfl, rfl, rfl, rfl, rfl⟩
  obtain ⟨hsread, hhead, htrack, hsectors, hes, hbx'⟩ := hsame
  obtain ⟨q, hq⟩ := h.segment
  have hlow : s.es < 0x4000 := by omega
  obtain ⟨ha1, ha2, ha3, ha⟩ := advance_spec (n := rest s) (s := t) (by rw [hsread, hsectors, h.sectors]; exact hfit)
    (by rw [hsectors, h.sectors]; exact h63) (by rw [hsread, hsectors, h.sectors]; exact hread)
    (by rw [hhead]; exact h.head) (by rw [htrack]; exact h.track_lt h5)
  generalize advance (rest s) t = u at ha1 ha2 ha3 ha ⊢
  have hu : u.es = s.es ∧ u.bx = s.bx ∧ u.mem = t.mem ∧ u.reads = t.reads ∧ u.sectors = t.sectors := by
    rw [ha]
    exact ⟨hes, hbx', rfl, rfl, rfl⟩
  obtain ⟨hues, hubx, humem, hureads, husectors⟩ := hu
  obtain ⟨hf1, hf2, hf3, hf⟩ := forward_spec (n := rest s) (s := u) (by omega) (by rw [hubx]; exact hseg)
    (hues.trans hq) (by rw [hues]; exact hlow)
  generalize forward (rest s) u = v at hf1 hf2 hf3 hf ⊢
  have hv : v.sread = u.sread ∧ v.head = u.head ∧ v.track = u.track ∧ v.mem = u.mem ∧
      v.reads = u.reads ∧ v.sectors = u.sectors := by
    rw [hf]
    exact ⟨rfl, rfl, rfl, rfl, rfl, rfl⟩
  obtain ⟨hvsread, hvhead, hvtrack, hvmem, hvreads, hvsectors⟩ := hv
  have hS : t.sectors = bios.sectors := hsectors.trans h.sectors
  refine ⟨hpos, ⟨?_, ?_, ?_, ?_, hf1, hf2, ?_, ?_, ?_, ?_⟩⟩
  · rw [hvsectors, husectors, hS]
  · rw [hvsread, ← hS]
    exact ha1
  · rw [hvhead]
    exact ha2
  · rw [hvsread, hvhead, hvtrack, ← hS, ha3, hsread, hhead, htrack, hS, h.place]
    omega
  · rw [hf3, hues, hubx, haddr]
    omega
  · omega
  · rw [hvmem, humem, hmem]
  · rw [hvreads, hureads]
    exact hfine

/-- The loop ends, and the system is loaded. -/
theorem rpRead_spec (hworks : bios.Works) (h5 : 5 < bios.sectors) (h63 : bios.sectors < 64)
    (h : Loaded bios m L s) :
    ∃ N t, (∀ tries fuel, N ≤ tries → N ≤ fuel → rpRead bios tries fuel s = some t) ∧
      Loaded bios m 384 t := by
  obtain ⟨d, hd⟩ := Nat.exists_eq_add_of_le h.most
  induction d using Nat.strong_induction_on generalizing L s with
  | _ d ih =>
    have haddr := h.address
    have hbx := h.bx
    obtain ⟨q, hq⟩ := h.segment
    by_cases hL : L = 384
    · refine ⟨1, s, fun tries fuel _ hfuel => ?_, hL ▸ h⟩
      obtain ⟨n, rfl⟩ := Nat.exists_eq_add_of_le' hfuel
      rw [rpRead, if_neg]
      show ¬ s.es < 0x4000
      omega
    · have hlow : s.es < endSeg := by
        show s.es < 0x4000
        omega
      obtain ⟨N, t, ht, hbrought⟩ := readTrack_spec hworks (rest s) s
      have hless : L < 384 := by omega
      obtain ⟨hpos, hnext⟩ := h.round h5 h63 hless hbrought
      have hmost := hnext.most
      obtain ⟨N', u, hu, hdone⟩ := ih (d - rest s) (by omega) hnext (by omega)
      refine ⟨max N (N' + 1), u, fun tries fuel htries hfuel => ?_, hdone⟩
      obtain ⟨n, rfl⟩ : ∃ n, fuel = n + 1 := ⟨fuel - 1, by omega⟩
      rw [rpRead, if_pos hlow, ht tries (by omega), Option.bind_some]
      exact hu tries n (by omega) (by omega)

/-- THE SYSTEM IS LOADED. -/
theorem readIt_spec (hworks : bios.Works) (h5 : 5 < bios.sectors) (h63 : bios.sectors < 64)
    (hsectors : s.sectors = bios.sectors) (hes : s.es = sysSeg) (hread : s.sread = 5)
    (hhead : s.head = 0) (htrack : s.track = 0) (hfine : ∀ r ∈ s.reads, r.Fine bios.sectors) :
    ∃ N t, (∀ fuel, N ≤ fuel → readIt bios fuel s = some t) ∧ Loaded bios s.mem 384 t := by
  have hstart : Loaded bios s.mem 0 { s with bx := 0 } := by
    refine ⟨hsectors, ?_, ?_, ?_, ⟨1, hes⟩, ?_, ?_, ?_, Lib.overlay_zero.symm, hfine⟩
    · exact hread ▸ h5
    · exact hhead ▸ Nat.two_pos
    · dsimp only
      rw [hread, hhead, htrack]
      omega
    · exact Nat.two_pow_pos 16
    · dsimp only
      rw [hes]
      rfl
    · exact Nat.zero_le _
  obtain ⟨N, t, ht, hloaded⟩ := rpRead_spec hworks h5 h63 hstart
  refine ⟨N, t, fun fuel hfuel => ?_, hloaded⟩
  unfold readIt
  rw [if_pos (by rw [hes]; rfl)]
  exact ht fuel fuel hfuel hfuel

end Linux011.Boot
