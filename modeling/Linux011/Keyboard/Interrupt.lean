import Linux011.Keyboard.PutQueue

/-!
# The keyboard interrupt (`kernel/chr_drv/keyboard.S`)

`keyboard_interrupt` reads a scan code and calls the routine that `key_table` has for it, with the scan
code in `%eax` and whatever the interrupted program had in `%ebx`, `%ecx` and `%edx`. The routines change
the state of the keys or put bytes into the read queue; then `do_tty_interrupt` is called.

The registers are popped at the end, so a routine is a function of what it finds in them. The maps are
those of `KBD_US`. Left out are the ports, of which only 0x60 is read for more than waiting, the lights,
and what `show_stat` prints.
-/

namespace Linux011.Keyboard

open Lib TtyIo

/-- The registers that `keyboard_interrupt` saves. -/
structure Regs where
  eax : Reg
  ebx : Reg
  ecx : Reg
  edx : Reg

structure Keys where
  /-- caps, alt, ctrl and shift -/
  mode : Byte
  /-- num-lock, caps and scroll-lock -/
  leds : Byte
  e0 : Byte

/-- `testb`. -/
def test (mask b : Byte) : Bool := b &&& mask != 0

/-! ## Keys that change a mode -/

namespace Keys

/-- The bit of `ctrl` or `alt`; with a prefix it is that of the key on the right. -/
def side (al : Byte) (k : Keys) : Byte := if k.e0 = 0 then al else al + al

def press (al : Byte) (k : Keys) : Keys := { k with mode := k.mode ||| al }

def release (al : Byte) (k : Keys) : Keys := { k with mode := k.mode &&& ~~~al }

def ctrl (k : Keys) : Keys := k.press (k.side 0x04)
def alt (k : Keys) : Keys := k.press (k.side 0x10)
def unctrl (k : Keys) : Keys := k.release (k.side 0x04)
def unalt (k : Keys) : Keys := k.release (k.side 0x10)
def lshift (k : Keys) : Keys := k.press 0x01
def unlshift (k : Keys) : Keys := { k with mode := k.mode &&& 0xfe }
def rshift (k : Keys) : Keys := k.press 0x02
def unrshift (k : Keys) : Keys := { k with mode := k.mode &&& 0xfd }

def caps (k : Keys) : Keys :=
  if test 0x80 k.mode then k
  else { k with leds := k.leds ^^^ 4, mode := (k.mode ^^^ 0x40) ||| 0x80 }

def uncaps (k : Keys) : Keys := { k with mode := k.mode &&& 0x7f }
def scroll (k : Keys) : Keys := { k with leds := k.leds ^^^ 1 }
def num (k : Keys) : Keys := { k with leds := k.leds ^^^ 2 }

end Keys

/-! ## Cursor keys and the numeric keypad -/

def ascii (s : String) : List Byte := s.toList.map fun c => .ofNat 8 c.toNat

def numTable : List Byte := ascii "789 456 1230,"

def curTable : List Byte := ascii "HA5 DGC YB623"

/-- `movb table(%eax),%al`. -/
def load (table : List Byte) (eax : Reg) : Reg := eax.setLow (table.getD eax.toNat 0)

/-- `cur`: `ESC [`, a letter, and `~` behind a digit. -/
def cur (eax : Reg) (c : Console) : Console :=
  let eax := load curTable eax
  let eax : Reg := if eax.low ≤ 0x39 then eax.setHigh 0x7e else eax
  let eax : Reg := eax <<< 16
  putQueue (eax.setHalf 0x5b1b) 0 c

/-- `cursor`; without a result the machine is reset. -/
def cursor (eax : Reg) (k : Keys) (c : Console) : Option Console :=
  if eax.low < 0x47 then some c
  else
    let eax := eax.setLow (eax.low - 0x47)
    if 12 < eax.low then some c
    else if eax.low = 12 ∧ test 0x0c k.mode ∧ test 0x30 k.mode then none
    else if k.e0 = 0x01 ∨ ¬ test 0x02 k.leds ∨ test 0x03 k.mode then some (cur eax c)
    else some (putQueue (load numTable eax) 0 c)

/-! ## Function keys -/

def funcTable : List Reg :=
  [0x415b5b1b, 0x425b5b1b, 0x435b5b1b, 0x445b5b1b,
   0x455b5b1b, 0x465b5b1b, 0x475b5b1b, 0x485b5b1b,
   0x495b5b1b, 0x4a5b5b1b, 0x4b5b5b1b, 0x4c5b5b1b]

/-- `ok_func`, with the check that there is enough room. -/
def okFunc (eax ecx : Reg) (c : Console) : Console :=
  if ecx.slt 4 then c else putQueue (funcTable.getD eax.toNat 0) 0 c

/-- `func`. -/
def func (eax ecx : Reg) (c : Console) : Console :=
  if eax.low < 0x3B then c
  else
    let eax := eax.setLow (eax.low - 0x3B)
    if eax.low ≤ 9 then okFunc eax ecx c
    else
      let eax := eax.setLow (eax.low - 18)
      if eax.low < 10 then c
      else if 11 < eax.low then c
      else okFunc eax ecx c

/-! ## Keys with one character -/

def keyMap : List Byte :=
  [0, 27] ++ ascii "1234567890-=" ++ [127, 9] ++ ascii "qwertyuiop[]" ++ [13, 0] ++
  ascii "asdfghjkl;'" ++ ascii "`" ++ [0] ++ ascii "\\zxcvbnm,./" ++ [0] ++ ascii "*" ++ [0, 32] ++
  List.replicate 16 0 ++ ascii "-" ++ [0, 0, 0] ++ ascii "+" ++ [0, 0, 0, 0, 0, 0, 0] ++ ascii "<" ++
  List.replicate 10 0

def shiftMap : List Byte :=
  [0, 27] ++ ascii "!@#$%^&*()_+" ++ [127, 9] ++ ascii "QWERTYUIOP\x7b\x7d" ++ [13, 0] ++
  ascii "ASDFGHJKL:\"" ++ ascii "~" ++ [0] ++ ascii "|ZXCVBNM<>?" ++ [0] ++ ascii "*" ++ [0, 32] ++
  List.replicate 16 0 ++ ascii "-" ++ [0, 0, 0] ++ ascii "+" ++ [0, 0, 0, 0, 0, 0, 0] ++ ascii ">" ++
  List.replicate 10 0

def altMap : List Byte :=
  [0, 0] ++ [0] ++ ascii "@" ++ [0] ++ ascii "$" ++ [0, 0] ++ ascii "\x7b[]\x7d\\" ++ [0] ++ [0, 0] ++
  List.replicate 11 0 ++ ascii "~" ++ [13, 0] ++ List.replicate 11 0 ++ [0, 0] ++ List.replicate 11 0 ++
  [0, 0, 0, 0] ++ List.replicate 16 0 ++ [0, 0, 0, 0, 0] ++ [0, 0, 0, 0, 0, 0, 0] ++ ascii "|" ++
  List.replicate 10 0

/-- `do_self`, the character of the key. -/
def Keys.map (k : Keys) : List Byte :=
  if test 0x20 k.mode then altMap else if test 0x03 k.mode then shiftMap else keyMap

/-- `do_self`, what the modes make of the character. -/
def Keys.modify (al : Byte) (k : Keys) : Byte :=
  let al := if test 0x4c k.mode ∧ 0x61 ≤ al ∧ al ≤ 0x7d then al - 32 else al
  let al := if test 0x0c k.mode ∧ 64 ≤ al ∧ al < 64 + 32 then al - 64 else al
  if test 0x10 k.mode then al ||| 0x80 else al

def doSelf (eax : Reg) (k : Keys) (c : Console) : Console :=
  let eax := load k.map eax
  if eax.low = 0 then c
  else
    let eax := eax.setLow (k.modify eax.low)
    putQueue (eax &&& 0xff) 0 c

/-- The keypad has the slash where the keyboard has `minus`, with a prefix. -/
def minus (eax : Reg) (k : Keys) (c : Console) : Console :=
  if k.e0 = 1 then putQueue 0x2f 0 c else doSelf eax k c

/-! ## The interrupt -/

inductive Routine where
  | none | doSelf | minus | cursor | func
  | ctrl | alt | lshift | rshift | caps | num | scroll
  | unctrl | unalt | unlshift | unrshift | uncaps
  deriving DecidableEq

/-- `key_table`, the keys that are pressed. -/
def makeTable : List Routine :=
  [.none, .doSelf, .doSelf, .doSelf,  /- 00-03 s0 esc 1 2 -/
   .doSelf, .doSelf, .doSelf, .doSelf, .doSelf, .doSelf, .doSelf, .doSelf,  /- 04-0B -/
   .doSelf, .doSelf, .doSelf, .doSelf, .doSelf, .doSelf, .doSelf, .doSelf,  /- 0C-13 -/
   .doSelf, .doSelf, .doSelf, .doSelf, .doSelf, .doSelf, .doSelf, .doSelf,  /- 14-1B -/
   .doSelf, .ctrl, .doSelf, .doSelf,  /- 1C-1F enter ctrl a s -/
   .doSelf, .doSelf, .doSelf, .doSelf, .doSelf, .doSelf, .doSelf, .doSelf,  /- 20-27 -/
   .doSelf, .doSelf, .lshift, .doSelf,  /- 28-2B -/
   .doSelf, .doSelf, .doSelf, .doSelf, .doSelf, .doSelf, .doSelf, .doSelf,  /- 2C-33 -/
   .doSelf, .minus, .rshift, .doSelf,  /- 34-37 . - rshift * -/
   .alt, .doSelf, .caps, .func,  /- 38-3B alt sp caps f1 -/
   .func, .func, .func, .func, .func, .func, .func, .func,  /- 3C-43 -/
   .func, .num, .scroll, .cursor,  /- 44-47 f10 num scr home -/
   .cursor, .cursor, .doSelf, .cursor,  /- 48-4B up pgup - left -/
   .cursor, .cursor, .doSelf, .cursor,  /- 4C-4F n5 right + end -/
   .cursor, .cursor, .cursor, .cursor,  /- 50-53 dn pgdn ins del -/
   .none, .none, .doSelf, .func,  /- 54-57 sysreq ? < f11 -/
   .func]  /- 58 f12 -/

/-- `key_table`. From 59 on it has the routines of five keys that are released, and `none`. -/
def keyTable (scan : Byte) : Routine :=
  if scan = 0x9D then .unctrl
  else if scan = 0xAA then .unlshift
  else if scan = 0xB6 then .unrshift
  else if scan = 0xB8 then .unalt
  else if scan = 0xBA then .uncaps
  else makeTable.getD scan.toNat .none

/-- The routine, called with the scan code in `%eax`. -/
def Routine.run (eax ecx : Reg) (k : Keys) (c : Console) : Routine → Option (Keys × Console)
  | .none => some (k, c)
  | .doSelf => some (k, Keyboard.doSelf eax k c)
  | .minus => some (k, Keyboard.minus eax k c)
  | .cursor => (Keyboard.cursor eax k c).map (k, ·)
  | .func => some (k, Keyboard.func eax ecx c)
  | .ctrl => some (k.ctrl, c)
  | .alt => some (k.alt, c)
  | .lshift => some (k.lshift, c)
  | .rshift => some (k.rshift, c)
  | .caps => some (k.caps, c)
  | .num => some (k.num, c)
  | .scroll => some (k.scroll, c)
  | .unctrl => some (k.unctrl, c)
  | .unalt => some (k.unalt, c)
  | .unlshift => some (k.unlshift, c)
  | .unrshift => some (k.unrshift, c)
  | .uncaps => some (k.uncaps, c)

/-- `keyboard_interrupt`, up to the call of `do_tty_interrupt`. -/
def keyboardInterrupt (r : Regs) (scan : Byte) (k : Keys) (c : Console) : Option (Keys × Console) :=
  -- `movl $0x10,%eax` is for the segments, and clears the register for the scan code
  let r := { r with eax := (0x10 : Reg) }
  let r := { r with eax := r.eax.setLow 0 }
  let r := { r with eax := r.eax.setLow scan }
  if r.eax.low = 0xe0 then some ({ k with e0 := 1 }, c)
  else if r.eax.low = 0xe1 then some ({ k with e0 := 2 }, c)
  else (keyTable r.eax.low).run r.eax r.ecx k c |>.map fun (k, c) => ({ k with e0 := 0 }, c)

variable {scan : Byte} {i : Nat} {r r' : Regs} {k : Keys} {c : Console}

/-! ## Tables -/

theorem Keys.length_map (k : Keys) : k.map.length = 0x61 := by
  unfold map
  split
  · decide
  · split
    · decide
    · decide

/-- No routine reads behind the end of its table. -/
theorem keyTable_in_tables :
    (keyTable scan = .doSelf ∨ keyTable scan = .minus → scan.toNat < k.map.length) ∧
    (keyTable scan = .cursor → 0x47 ≤ scan ∧ (scan - 0x47).toNat < curTable.length ∧
      (scan - 0x47).toNat < numTable.length) := by
  have hall : ∀ scan, (keyTable scan = .doSelf ∨ keyTable scan = .minus → scan.toNat < 0x61) ∧
      (keyTable scan = .cursor → 0x47 ≤ scan ∧ (scan - 0x47).toNat < curTable.length ∧
        (scan - 0x47).toNat < numTable.length) := by decide +kernel
  rw [k.length_map]
  exact hall scan

/-! ## Registers -/

/-- The routines find the scan code in `%eax`, and nothing else. -/
theorem setLow_scan (v scan : Byte) : ((0x10 : Reg).setLow v).setLow scan = scan.setWidth 32 := by
  apply BitVec.eq_of_getLsbD_eq
  intro i hi
  have h10 : ∀ i < 32, ¬ i < 8 → (0x10 : Reg).getLsbD i = false := by decide
  rw [Reg.getLsbD_setLow _ hi, Reg.getLsbD_setLow _ hi, BitVec.getLsbD_setWidth, decide_eq_true hi,
    Bool.true_and]
  by_cases h8 : i < 8
  · rw [if_pos h8]
  · rw [if_neg h8, if_neg h8, h10 i hi h8, BitVec.getLsbD_of_ge scan i (by omega)]

theorem low_setWidth : Reg.low (scan.setWidth 32) = scan :=
  (BitVec.setWidth_setWidth_of_le _ (by decide)).trans (BitVec.setWidth_eq _)

theorem setLow_setWidth (v : Byte) : Reg.setLow v (scan.setWidth 32) = v.setWidth 32 := by
  apply BitVec.eq_of_getLsbD_eq
  intro i hi
  rw [Reg.getLsbD_setLow _ hi, BitVec.getLsbD_setWidth, BitVec.getLsbD_setWidth]
  by_cases h8 : i < 8
  · simp [h8, hi]
  · simp [h8, BitVec.getLsbD_of_ge scan i (by omega), BitVec.getLsbD_of_ge v i (by omega)]

theorem keyboardInterrupt_eq : keyboardInterrupt r scan k c =
    if scan = 0xe0 then some ({ k with e0 := 1 }, c)
    else if scan = 0xe1 then some ({ k with e0 := 2 }, c)
    else (keyTable scan).run (scan.setWidth 32) r.ecx k c |>.map fun (k, c) => ({ k with e0 := 0 }, c) := by
  unfold keyboardInterrupt
  simp only [setLow_scan, low_setWidth]

/-- Only `func` looks at a register that it was not given. -/
theorem keyboardInterrupt_of_ne (h : keyTable scan ≠ .func) :
    keyboardInterrupt r scan k c = keyboardInterrupt r' scan k c := by
  have hrun : (keyTable scan).run (scan.setWidth 32) r.ecx k c =
      (keyTable scan).run (scan.setWidth 32) r'.ecx k c := by
    revert h
    cases keyTable scan with
    | func => exact fun h => absurd rfl h
    | _ => exact fun _ => rfl
  rw [keyboardInterrupt_eq, keyboardInterrupt_eq, hrun]

/-! ## Function keys -/

/-- The number of a function key. -/
def functionKey (scan : Byte) : Option Nat :=
  if 0x3B ≤ scan ∧ scan ≤ 0x44 then some (scan.toNat - 0x3B)
  else if 0x57 ≤ scan ∧ scan ≤ 0x58 then some (scan.toNat - 0x57 + 10)
  else none

theorem keyTable_eq_func : keyTable scan = .func ↔ functionKey scan ≠ none := by
  revert scan
  decide +kernel

/-- The four bytes of a function key. -/
def sequence (i : Nat) : List Byte := [0x1b, 0x5b, 0x5b, .ofNat 8 (0x41 + i)]

theorem functionKey_lt (h : functionKey scan = some i) : i < 12 := by
  have hall : ∀ scan, ∀ i ∈ functionKey scan, i < 12 := by decide +kernel
  exact hall scan i h

/-- What `func` makes of the scan code of a function key. -/
theorem functionKey_index (h : functionKey scan = some i) : ¬ scan < 0x3B ∧
    (scan - 0x3B ≤ 9 ∧ (scan - 0x3B).toNat = i ∨
      ¬ scan - 0x3B ≤ 9 ∧ ¬ scan - 0x3B - 18 < 10 ∧ ¬ 11 < scan - 0x3B - 18 ∧
        (scan - 0x3B - 18).toNat = i) := by
  have hall : ∀ scan : Byte, ∀ i ∈ functionKey scan, ¬ scan < 0x3B ∧
      (scan - 0x3B ≤ 9 ∧ (scan - 0x3B).toNat = i ∨
        ¬ scan - 0x3B ≤ 9 ∧ ¬ scan - 0x3B - 18 < 10 ∧ ¬ 11 < scan - 0x3B - 18 ∧
          (scan - 0x3B - 18).toNat = i) := by decide +kernel
  exact hall scan i h

theorem func_eq {ecx : Reg} (h : functionKey scan = some i) : func (scan.setWidth 32) ecx c =
    if ecx.slt 4 then c else putQueue (funcTable.getD i 0) 0 c := by
  have htoNat : ∀ al : Byte, BitVec.toNat (al.setWidth 32) = al.toNat := fun al =>
    BitVec.toNat_setWidth_of_le (by decide)
  obtain ⟨hlow, ⟨h9, rfl⟩ | ⟨h9, h10, h11, rfl⟩⟩ := functionKey_index h
  · simp only [func, okFunc, low_setWidth, setLow_setWidth, if_neg hlow, if_pos h9, htoNat]
  · simp only [func, okFunc, low_setWidth, setLow_setWidth, if_neg hlow, if_neg h9, if_neg h10, if_neg h11,
      htoNat]

/-- Each entry of the table has four bytes. -/
theorem significant_funcTable (h : i < 12) : Significant (pair 0 (funcTable.getD i 0)) 4 ∧
    bytes (pair 0 (funcTable.getD i 0)) 4 = sequence i := by
  have hrest : ∀ i < 12, rest (pair 0 (funcTable.getD i 0)) 4 = 0 ∧
      (∀ j < 4, rest (pair 0 (funcTable.getD i 0)) j ≠ 0) ∧
      bytes (pair 0 (funcTable.getD i 0)) 4 = sequence i := by decide +kernel
  obtain ⟨h4, hj, hbytes⟩ := hrest i h
  exact ⟨⟨by decide, h4, fun j _ => hj j⟩, hbytes⟩

/-! ## What an interrupt shows -/

/-- What is in the queue, and the keys; nothing if the machine is reset. -/
def observe (o : Option (Keys × Console)) : Option (List Byte × Keys) :=
  o.map fun (k, c) => (c.readQ.contents, k)

/-- A function key is heard if there is room, and the interrupted program had no small number in `%ecx`. -/
theorem observe_functionKey (h : functionKey scan = some i) :
    observe (keyboardInterrupt r scan k c) = some (c.readQ.contents ++
      (if r.ecx.slt 4 ∨ c.readQ.left < 4 then [] else sequence i), { k with e0 := 0 }) := by
  have hfunc : keyTable scan = .func := keyTable_eq_func.mpr (by rw [h]; nofun)
  have hprefix : scan ≠ 0xe0 ∧ scan ≠ 0xe1 := by
    constructor
    · rintro rfl
      cases hfunc
    · rintro rfl
      cases hfunc
  obtain ⟨hsig, hbytes⟩ := significant_funcTable (functionKey_lt h)
  rw [keyboardInterrupt_eq, if_neg hprefix.1, if_neg hprefix.2, hfunc]
  show some ((func (scan.setWidth 32) r.ecx c).readQ.contents, { k with e0 := 0 }) = _
  rw [func_eq h]
  by_cases hecx : r.ecx.slt 4 = true
  · rw [if_pos hecx, if_pos (.inl hecx), List.append_nil]
  · rw [if_neg hecx]
    by_cases hleft : c.readQ.left < 4
    · rw [if_pos (.inr hleft), (putQueue_full hsig hleft).1, List.append_nil]
    · rw [if_neg (by rw [not_or]; exact ⟨hecx, hleft⟩), (putQueue_fits hsig (Nat.le_of_not_lt hleft)).1,
        hbytes]

/-- The interrupted program does not matter, and a function key is heard exactly if there is room. -/
structure Independent (scan : Byte) (k : Keys) (c : Console) : Prop where
  same : ∀ r r', observe (keyboardInterrupt r scan k c) = observe (keyboardInterrupt r' scan k c)
  heard : ∀ i, functionKey scan = some i → ∀ r,
    (∃ k', observe (keyboardInterrupt r scan k c) = some (c.readQ.contents ++ sequence i, k')) ↔
      4 ≤ c.readQ.left

/-- An interrupt depends on the interrupted program exactly for a function key for which there is room. -/
theorem independent_iff (scan : Byte) (k : Keys) (c : Console) :
    Independent scan k c ↔ functionKey scan = none ∨ c.readQ.left < 4 := by
  constructor
  · intro h
    obtain hnone | ⟨i, hi⟩ := Option.eq_none_or_eq_some (functionKey scan)
    · exact .inl hnone
    · refine .inr (Nat.lt_of_not_le fun hroom => ?_)
      obtain ⟨k', hk'⟩ := (h.heard i hi ⟨0, 0, 0, 0⟩).mpr hroom
      rw [observe_functionKey hi, if_pos (.inl (by decide)), List.append_nil, Option.some.injEq,
        Prod.mk.injEq] at hk'
      exact List.cons_ne_nil _ _ (List.self_eq_append_right.mp hk'.1)
  · intro h
    obtain hnone | ⟨i, hi⟩ := Option.eq_none_or_eq_some (functionKey scan)
    · have hne : keyTable scan ≠ .func := fun hf => keyTable_eq_func.mp hf hnone
      refine ⟨fun r r' => by rw [keyboardInterrupt_of_ne hne], fun i hi => ?_⟩
      rw [hnone] at hi
      cases hi
    · have hleft : c.readQ.left < 4 := h.resolve_left (by rw [hi]; nofun)
      refine ⟨fun r r' => ?_, fun j hj r => ⟨?_, fun hroom => absurd hleft (Nat.not_lt.mpr hroom)⟩⟩
      · rw [observe_functionKey hi, observe_functionKey hi, if_pos (.inr hleft), if_pos (.inr hleft)]
      · rintro ⟨k', hk'⟩
        rw [observe_functionKey hj, if_pos (.inr hleft), List.append_nil, Option.some.injEq,
          Prod.mk.injEq] at hk'
        exact absurd (List.self_eq_append_right.mp hk'.1) (List.cons_ne_nil _ _)

/-- The keyboard after the start, with an empty queue. -/
def idle : Console := ⟨Queue.fresh (fun _ => 0) ttyBufSize_pos, none, fun _ => 0⟩

/-- F1, once with 0 in `%ecx` and once with 4. -/
theorem not_independent : ¬ ∀ scan k c, Independent scan k c := by
  intro h
  have hsame := (h 0x3B ⟨0, 2, 0⟩ idle).same ⟨0, 0, 0, 0⟩ ⟨0, 0, 4, 0⟩
  have hkey : functionKey 0x3B = some 0 := by decide
  have hempty : idle.readQ.contents = [] := Queue.contents_fresh _
  rw [observe_functionKey hkey, observe_functionKey hkey, if_pos (.inl (by decide)),
    if_neg (by decide), hempty] at hsame
  cases hsame

end Linux011.Keyboard
