import Linux011.Boot.Load

/-!
# From the boot sector to protected mode (`boot/setup.s`)

`setup` puts what the BIOS knows about the machine where the boot sector was, and moves the system down
to address 0, over the BIOS data. Then the first `0x30000` bytes of memory are the sectors of the
diskette behind the setup sectors, `setup` itself is still where it runs, and `ROOT_DEV` is where `main`
looks for it.
-/

namespace Linux011.Boot

variable {bios : Bios} {m : Mem} {s t : State} {w ds es si di cx : Nat}

/-- What the BIOS answers. -/
structure Answers where
  /-- `dx`, the position of the cursor. -/
  cursor : Nat
  /-- `ax`, the size of the extended memory. -/
  extMem : Nat
  /-- `bx`, the display page. -/
  page : Nat
  /-- `ax`, the video mode and the width. -/
  mode : Nat
  /-- `ax`, `bx` and `cx`, the parameters of an EGA. -/
  ega : Nat × Nat × Nat
  /-- The carry is clear and `ah` is 3: there is a second hard disk. -/
  disk1 : Bool

/-- Copy the 16 bytes an interrupt vector points to (`lds`, `rep movsb`). -/
def copyTable (vector di : Nat) (m : Mem) : Mem :=
  repMovs 1 (loadWord m (4 * vector + 2)) initSeg (loadWord m (4 * vector)) di 0x10 m

/-- `setup`, up to `is_disk1`. -/
def parameters (a : Answers) (m : Mem) : Mem :=
  let m := storeWord m (16 * initSeg) a.cursor
  let m := storeWord m (16 * initSeg + 2) a.extMem
  let m := storeWord m (16 * initSeg + 4) a.page
  let m := storeWord m (16 * initSeg + 6) a.mode
  let m := storeWord m (16 * initSeg + 8) a.ega.1
  let m := storeWord m (16 * initSeg + 10) a.ega.2.1
  let m := storeWord m (16 * initSeg + 12) a.ega.2.2
  let m := copyTable 0x41 0x0080 m
  let m := copyTable 0x46 0x0090 m
  if a.disk1 then m else Lib.overlay m (16 * initSeg + 0x90) 0x10 fun _ => 0

/-- `do_move`, at most `fuel` times around. -/
def doMove : Nat → Nat → Mem → Option Mem
  | 0, _, _ => none
  | fuel + 1, ax, m =>
    let es := ax
    let ax := word (ax + 0x1000)
    if ax = 0x9000 then some m else doMove fuel ax (repMovs 2 ax es 0 0 0x8000 m)

/-- `setup`, up to `end_move`. -/
def setup (a : Answers) (m : Mem) : Option Mem := doMove 9 0 (parameters a m)

/-! ## Moves -/

/-- As long as the offsets do not wrap. -/
theorem repMovs_eq (hw : 0 < w) (hsi : si + w * cx ≤ 2 ^ 16) (hdi : di + w * cx ≤ 2 ^ 16) :
    repMovs w ds es si di cx m = Lib.moveUp w (16 * ds + si) (16 * es + di) cx m := by
  induction cx generalizing si di m with
  | zero => rfl
  | succ cx ih =>
    rw [Nat.mul_succ] at hsi hdi
    have hunit : Lib.overlay m (16 * es + di) w (fun i => m (16 * ds + word (si + i))) =
        Lib.overlay m (16 * es + di) w fun i => m (16 * ds + si + i) := by
      refine Lib.overlay_congr fun i hi => ?_
      rw [word, Nat.mod_eq_of_lt (by omega), Nat.add_assoc]
    rw [repMovs, Lib.moveUp, hunit]
    cases cx with
    | zero => rfl
    | succ cx =>
      rw [Nat.mul_succ] at hsi hdi
      have hs : word (si + w) = si + w := Nat.mod_eq_of_lt (by omega)
      have hd : word (di + w) = di + w := Nat.mod_eq_of_lt (by omega)
      rw [hs, hd, ih (by rw [Nat.mul_succ]; omega) (by rw [Nat.mul_succ]; omega), Nat.add_assoc,
        Nat.add_assoc]

/-- `rep movs` touches its destination only, wherever it reads. -/
theorem repMovs_out {a : Nat} (hw : 0 < w) (hdi : di + w * cx ≤ 2 ^ 16)
    (ha : a < 16 * es + di ∨ 16 * es + di + w * cx ≤ a) : repMovs w ds es si di cx m a = m a := by
  induction cx generalizing si di m with
  | zero => rfl
  | succ cx ih =>
    rw [Nat.mul_succ] at hdi ha
    have hunit : Lib.overlay m (16 * es + di) w (fun i => m (16 * ds + word (si + i))) a = m a :=
      Lib.overlay_out (by omega)
    rw [repMovs]
    cases cx with
    | zero => exact hunit
    | succ cx =>
      rw [Nat.mul_succ] at hdi ha
      have hd : word (di + w) = di + w := Nat.mod_eq_of_lt (by omega)
      rw [hd, ih (by rw [Nat.mul_succ]; omega) (by rw [Nat.mul_succ]; omega), hunit]

theorem storeWord_out {a b n : Nat} (h : b < a ∨ a + 2 ≤ b) : storeWord m a n b = m b :=
  Lib.overlay_out h

theorem loadWord_storeWord {a n : Nat} (hn : n < 2 ^ 16) : loadWord (storeWord m a n) a = n := by
  unfold loadWord storeWord
  rw [Lib.overlay_at (by omega) (by omega), Lib.overlay_at (by omega) (by omega), Nat.sub_self,
    Nat.add_sub_cancel_left, BitVec.toNat_ofNat, BitVec.toNat_ofNat]
  omega

/-- What `setup` is told goes to the place of the boot sector, and not as far as `root_dev`. -/
theorem parameters_out (a : Answers) {b : Nat} (h : b < 0x90000 ∨ 0x900a0 ≤ b) :
    parameters a m b = m b := by
  have hword : ∀ (m : Mem) (k n : Nat), k < 0x9e → storeWord m (16 * initSeg + k) n b = m b :=
    fun m k n hk => storeWord_out (by show b < 16 * 0x9000 + k ∨ 16 * 0x9000 + k + 2 ≤ b; omega)
  have htable : ∀ (m : Mem) (vector di : Nat), di < 0x91 → copyTable vector di m b = m b :=
    fun m vector di hdi => repMovs_out Nat.one_pos (by omega)
      (by show b < 16 * 0x9000 + di ∨ 16 * 0x9000 + di + 1 * 0x10 ≤ b; omega)
  have htables : ∀ m : Mem, copyTable 0x46 0x0090 (copyTable 0x41 0x0080 (storeWord (storeWord (storeWord
      (storeWord (storeWord (storeWord (storeWord m (16 * initSeg) a.cursor) (16 * initSeg + 2) a.extMem)
        (16 * initSeg + 4) a.page) (16 * initSeg + 6) a.mode) (16 * initSeg + 8) a.ega.1)
          (16 * initSeg + 10) a.ega.2.1) (16 * initSeg + 12) a.ega.2.2)) b = m b := by
    intro m
    simp (disch := decide) only [htable, hword]
    exact hword m 0 a.cursor (by decide)
  unfold parameters
  split
  · exact htables m
  · rw [Lib.overlay_out (by show b < 16 * 0x9000 + 0x90 ∨ 16 * 0x9000 + 0x90 + 0x10 ≤ b; omega)]
    exact htables m

/-- The system goes down by 64kB, segment by segment. -/
theorem doMove_eq {k d : Nat} (h : k + d = 8) : doMove (d + 1) (0x1000 * k) m =
    some (Lib.overlay m (0x10000 * k) (0x10000 * d) fun i => m (0x10000 * k + 0x10000 + i)) := by
  induction d generalizing k m with
  | zero =>
    have hk : k = 8 := h
    subst hk
    rw [Lib.overlay_zero]
    rfl
  | succ d ih =>
    have hax : word (0x1000 * k + 0x1000) = 0x1000 * (k + 1) := by
      unfold word
      omega
    have hmove : repMovs 2 (0x1000 * (k + 1)) (0x1000 * k) 0 0 0x8000 m =
        Lib.overlay m (0x10000 * k) 0x10000 fun i => m (0x10000 * k + 0x10000 + i) := by
      have hds : 16 * (0x1000 * (k + 1)) + 0 = 0x10000 * k + 0x10000 := by omega
      have hes : 16 * (0x1000 * k) + 0 = 0x10000 * k := by omega
      rw [repMovs_eq Nat.two_pos (by decide) (by decide), hds, hes,
        Lib.moveUp_eq (Or.inl (Nat.le_add_right ..))]
    have hcount : 0x10000 * (d + 1) = 0x10000 + 0x10000 * d := by omega
    have hnext : 0x10000 * (k + 1) = 0x10000 * k + 0x10000 := by omega
    rw [doMove, hax, if_neg (by omega), hmove, ih (by omega), hcount,
      ← Lib.overlay_append (f := fun i => m (0x10000 * k + 0x10000 + i)), hnext]
    refine congrArg some (Lib.overlay_congr fun i _ => ?_)
    rw [Lib.overlay_out (by omega)]
    exact congrArg m (by omega)

theorem setup_eq (a : Answers) (m : Mem) : setup a m =
    some (Lib.overlay (parameters a m) 0 0x80000 fun i => parameters a m (0x10000 + i)) :=
  doMove_eq (k := 0) (d := 8) rfl

/-! ## The boot sector -/

theorem root_lt {dev sectors ax : Nat} (h : root dev sectors = some ax) (hdev : dev < 2 ^ 16) :
    ax < 2 ^ 16 := by
  unfold root at h
  split at h
  · cases h
    exact hdev
  · split at h
    · cases h
      decide
    · split at h
      · cases h
        decide
      · cases h

theorem loadWord_lt (m : Mem) (a : Nat) : loadWord m a < 2 ^ 16 := by
  unfold loadWord
  omega

/-- The word for the root device in the boot sector of the diskette. -/
def Bios.rootWord (bios : Bios) : Nat := (bios.image 508).toNat + 256 * (bios.image 509).toNat

/-- What `bootsect` leaves for `setup`. -/
structure Booted (bios : Bios) (dev : Nat) (t : State) : Prop where
  fine : ∀ r ∈ t.reads, r.Fine bios.sectors
  system : ∀ i < 0x30000, t.mem (0x10000 + i) = bios.image (2560 + i)
  setup : ∀ i < 0x800, t.mem (0x90200 + i) = bios.image (512 + i)
  root : loadWord t.mem rootDev = dev

theorem bootsect_spec {dev : Nat} (hworks : bios.Works) (h5 : 5 < bios.sectors) (h63 : bios.sectors < 64)
    (hboot : ∀ i < 512, m (0x7c00 + i) = bios.image i)
    (hroot : root bios.rootWord bios.sectors = some dev) :
    ∃ N t, (∀ fuel, N ≤ fuel → bootsect bios fuel m = some t) ∧ Booted bios dev t := by
  -- the boot sector moves itself
  have hself : repMovs 2 bootSeg initSeg 0 0 256 m = Lib.overlay m 0x90000 512 bios.image := by
    rw [repMovs_eq Nat.two_pos (by decide) (by decide), Lib.moveUp_eq (Or.inr (by decide))]
    exact Lib.overlay_congr hboot
  obtain ⟨N₁, t₁, ht₁, hstate₁, hreads₁⟩ := loadSetup_spec hworks
    ⟨Lib.overlay m 0x90000 512 bios.image, initSeg, 0x200, 1 + setupLen, 0, 0, 0, []⟩
  have hmem₁ : t₁.mem = Lib.overlay (Lib.overlay m 0x90000 512 bios.image) 0x90200 0x800 fun i =>
      bios.image (512 + i) := by
    rw [hstate₁]
    refine Lib.overlay_congr fun i hi => ?_
    have hfound := found_eq (n := 4)
      (r := ⟨setupLen, 0, 2, 0, 0, initSeg, 0x200⟩) ⟨rfl, rfl, rfl⟩ (by decide)
      (show 1 + 4 ≤ bios.sectors by omega) hi
    rw [Nat.mul_zero, Nat.zero_add, Nat.zero_mul] at hfound
    exact hfound
  have hfine₁ : ∀ r ∈ t₁.reads, r.Fine bios.sectors := by
    intro r hr
    rcases hreads₁ r hr with rfl | hr
    · exact ⟨by decide, by decide, by show 2 + 4 ≤ _; omega, by decide, by decide⟩
    · cases hr
  -- the system
  have hfields : t₁.sread = 5 ∧ t₁.head = 0 ∧ t₁.track = 0 := by
    rw [hstate₁]
    exact ⟨rfl, rfl, rfl⟩
  obtain ⟨N₂, t₂, ht₂, hloaded⟩ := readIt_spec hworks h5 h63
    (s := { t₁ with es := sysSeg, sectors := bios.sectors }) rfl rfl hfields.1 hfields.2.1 hfields.2.2 hfine₁
  have hmem₂ : t₂.mem = Lib.overlay t₁.mem 0x10000 0x30000 fun i => bios.image (2560 + i) := hloaded.mem
  have hhigh : ∀ a, 0x40000 ≤ a → t₂.mem a = t₁.mem a := fun a ha => by
    rw [hmem₂, Lib.overlay_out (Or.inr (by omega))]
  have hroot₂ : loadWord t₂.mem rootDev = bios.rootWord := by
    have hbyte : ∀ i < 512, t₂.mem (0x90000 + i) = bios.image i := fun i hi => by
      rw [hhigh _ (by omega), hmem₁, Lib.overlay_out (Or.inl (by omega)), Lib.overlay_in hi]
    unfold loadWord Bios.rootWord
    rw [← hbyte 508 (by decide), ← hbyte 509 (by decide)]
    rfl
  refine ⟨max N₁ N₂, { t₂ with mem := storeWord t₂.mem rootDev dev }, fun fuel hfuel => ?_, ?_⟩
  · unfold bootsect
    rw [hself]
    show (loadSetup bios fuel _).bind _ = _
    rw [ht₁ fuel (by omega), Option.bind_some]
    show (readIt bios fuel { t₁ with es := sysSeg, sectors := bios.sectors }).bind _ = _
    rw [ht₂ fuel (by omega), Option.bind_some, hroot₂, hloaded.sectors, hroot]
    rfl
  · have hdev : dev < 2 ^ 16 := root_lt hroot (hroot₂ ▸ loadWord_lt t₂.mem rootDev)
    have hstored : ∀ a, a < 0x901fc ∨ 0x901fe ≤ a → storeWord t₂.mem rootDev dev a = t₂.mem a :=
      fun a ha => storeWord_out ha
    refine ⟨hloaded.fine, fun i hi => ?_, fun i hi => ?_, loadWord_storeWord hdev⟩
    · show storeWord t₂.mem rootDev dev _ = _
      rw [hstored _ (by omega), hmem₂, Lib.overlay_in hi]
    · show storeWord t₂.mem rootDev dev _ = _
      rw [hstored _ (by omega), hhigh _ (by omega), hmem₁, Lib.overlay_in hi]

/-- THE SYSTEM IS IN PLACE. The BIOS has loaded the first sector; then the boot sector and `setup` come
to their end, whatever the geometry of the diskette is and whatever reads fail on the way, and the
system is at address 0 as it is on the diskette. `setup` is unchanged where it runs, and the root device
is what the boot sector says, or the boot diskette. No read goes beyond its track or its segment. -/
theorem boot_in_place {dev : Nat} (a : Answers) (hworks : bios.Works) (h5 : 5 < bios.sectors)
    (h63 : bios.sectors < 64) (hboot : ∀ i < 512, m (0x7c00 + i) = bios.image i)
    (hroot : root bios.rootWord bios.sectors = some dev) :
    ∃ N t m', (∀ fuel, N ≤ fuel → bootsect bios fuel m = some t) ∧ setup a t.mem = some m' ∧
      (∀ r ∈ t.reads, r.Fine bios.sectors) ∧
      (∀ i < 0x30000, m' i = bios.image (2560 + i)) ∧
      (∀ i < 0x800, m' (0x90200 + i) = bios.image (512 + i)) ∧
      loadWord m' rootDev = dev := by
  obtain ⟨N, t, ht, hbooted⟩ := bootsect_spec hworks h5 h63 hboot hroot
  have hhigh : ∀ i, 0x900a0 ≤ i → Lib.overlay (parameters a t.mem) 0 0x80000
      (fun i => parameters a t.mem (0x10000 + i)) i = t.mem i := fun i hi => by
    rw [Lib.overlay_out (Or.inr (by omega)), parameters_out a (Or.inr hi)]
  refine ⟨N, t, _, ht, setup_eq a t.mem, hbooted.fine, fun i hi => ?_, fun i hi => ?_, ?_⟩
  · rw [Lib.overlay_at (Nat.zero_le i) (by omega), Nat.sub_zero, parameters_out a (Or.inl (by omega)),
      hbooted.system i hi]
  · rw [hhigh _ (by omega), hbooted.setup i hi]
  · rw [← hbooted.root]
    unfold loadWord
    rw [hhigh _ (by decide), hhigh _ (by decide)]

/-- A diskette of 1.44MB whose third, fourth and sixth reads fail; the bytes of a sector are its number. -/
def diskette : Bios where
  disk cylinder head sector _ := BitVec.ofNat 8 (36 * cylinder + 18 * head + sector)
  sectors := 18
  fails n := n = 2 || n = 3 || n = 5
  junk _ _ := 0xff

theorem diskette_works : diskette.Works := fun n => ⟨n + 6, Nat.le_add_right n 6, by
  unfold diskette
  rw [Bool.or_eq_false_iff, Bool.or_eq_false_iff]
  refine ⟨⟨?_, ?_⟩, ?_⟩ <;> rw [decide_eq_false_iff_not] <;> omega⟩

/-- 15MB of extended memory, a colour display with 80 columns, and one hard disk. -/
def answers : Answers := ⟨0x0500, 0x3c00, 0, 0x5003, (0x12, 0x0003, 0x0009), false⟩

/-- The root device of this boot sector is `0x0101`. -/
theorem boot_in_place_diskette : ∃ N t m',
    (∀ fuel, N ≤ fuel → bootsect diskette fuel (fun i => diskette.image (i - 0x7c00)) = some t) ∧
      setup answers t.mem = some m' ∧ m' 0 = 6 ∧ loadWord m' rootDev = 0x0101 := by
  obtain ⟨N, t, m', ht, hsetup, -, hsystem, -, hroot⟩ :=
    boot_in_place (m := fun i => diskette.image (i - 0x7c00)) answers diskette_works
      (by decide) (by decide) (fun i _ => by rw [Nat.add_sub_cancel_left])
      (show root diskette.rootWord diskette.sectors = some 0x0101 by decide)
  exact ⟨N, t, m', ht, hsetup, hsystem 0 (by decide), hroot⟩

end Linux011.Boot
