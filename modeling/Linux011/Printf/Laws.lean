import Linux011.Printf.Vsprintf

/-!
# The laws of `vsprintf`

A format is a list of items, and what is written for it should be what is written for the items one behind
the other, each with the arguments it names. An asterisk should stand for the digits of its argument.

`vsprintf` takes the argument of an asterisk and leaves `fmt` on the asterisk, where it then looks for the
conversion. So the laws hold for the formats without an asterisk, and for no others.
-/

namespace Linux011.Printf

/-! ## Formats -/

inductive FlagChar
  | minus
  | plus
  | space
  | hash
  | zero

def FlagChar.byte : FlagChar → Byte
  | .minus => 45
  | .plus => 43
  | .space => 32
  | .hash => 35
  | .zero => 48

/-- A width, or what is behind the point of a precision. -/
inductive Amount
  | digits (ds : List (Fin 10))
  | star

def digitByte (d : Fin 10) : Byte := BitVec.ofNat 8 (48 + d.val)

def Amount.text : Amount → List Byte
  | .digits ds => ds.map digitByte
  | .star => [42]

inductive Qualifier
  | h
  | l
  | L

def Qualifier.byte : Qualifier → Byte
  | .h => 104
  | .l => 108
  | .L => 76

inductive Conv
  | c
  | s
  | o
  | p
  | x
  | X
  | d
  | i
  | u
  | percent

def Conv.byte : Conv → Byte
  | .c => 99
  | .s => 115
  | .o => 111
  | .p => 112
  | .x => 120
  | .X => 88
  | .d => 100
  | .i => 105
  | .u => 117
  | .percent => 37

/-- A conversion; no width is one without digits. -/
structure Spec where
  flags : List FlagChar
  width : Amount
  precision : Option Amount
  qualifier : Option Qualifier
  conv : Conv

/-- A precision with its point. -/
def precisionText : Option Amount → List Byte
  | none => []
  | some a => 46 :: a.text

def Spec.text (sp : Spec) : List Byte :=
  sp.flags.map FlagChar.byte ++ (sp.width.text ++ (precisionText sp.precision ++
    ((sp.qualifier.map Qualifier.byte).toList ++ [sp.conv.byte])))

inductive Item
  | char (c : Byte) (h : c ≠ 37 ∧ c ≠ 0)
  | conversion (sp : Spec)

def Item.text : Item → List Byte
  | .char c _ => [c]
  | .conversion sp => 37 :: sp.text

abbrev Format := List Item

def text (f : Format) : List Byte := f.flatMap Item.text

/-! ## Arguments -/

def Amount.stars : Amount → Nat
  | .digits _ => 0
  | .star => 1

def precisionStars : Option Amount → Nat
  | none => 0
  | some a => a.stars

def Spec.stars (sp : Spec) : Nat := sp.width.stars + precisionStars sp.precision

/-- The argument of the conversion itself. -/
def Conv.named : Conv → Nat
  | .percent => 0
  | _ => 1

/-- The arguments an item names. -/
def Item.named : Item → Nat
  | .char _ _ => 0
  | .conversion sp => sp.stars + sp.conv.named

def named (f : Format) : Nat := (f.map Item.named).sum

def Item.stars : Item → Nat
  | .char _ _ => 0
  | .conversion sp => sp.stars

/-- The decimal digits of a number. -/
def decimal (n : Nat) : Amount :=
  .digits (if n = 0 then [0] else (Nat.digits 10 n).reverse.map fun d => Fin.ofNat 10 d)

/-- An asterisk for the width: the flags, the width, and the arguments that are left. -/
def settleWidth (flags : List FlagChar) : Amount → List Word → List FlagChar × Amount × List Word
  | .digits ds, args => (flags, .digits ds, args)
  | .star, args =>
    let w := args.headD 0
    (if w.toInt < 0 then flags ++ [.minus] else flags, decimal w.toInt.natAbs, args.tail)

/-- An asterisk for the precision. -/
def settlePrecision : Option Amount → List Word → Option Amount × List Word
  | some .star, args => (some (decimal (args.headD 0).toInt.toNat), args.tail)
  | precision, args => (precision, args)

/-- A conversion with numbers for its asterisks, and the arguments that are left. -/
def Spec.settle (sp : Spec) (args : List Word) : Spec × List Word :=
  let (flags, width, args) := settleWidth sp.flags sp.width args
  let (precision, args) := settlePrecision sp.precision args
  ({ sp with flags := flags, width := width, precision := precision }, args)

/-- A format with numbers for its asterisks, and the other arguments. -/
def settle : Format → List Word → Format × List Word
  | [], _ => ([], [])
  | .char c h :: f, args => (.char c h :: (settle f args).1, (settle f args).2)
  | .conversion sp :: f, args =>
    let (sp', rest) := sp.settle args
    let (f', kept) := settle f (rest.drop sp.conv.named)
    (.conversion sp' :: f', rest.take sp.conv.named ++ kept)

/-! ## The laws -/

/-- `vsprintf` writes `out` and takes all the arguments; it stores nothing elsewhere. -/
def Writes (strings : Word → List Byte) (f : Format) (args : List Word) (out : List Byte) : Prop :=
  vsprintf strings (text f) args = .ok (out.length, ⟨out, [], []⟩)

/-- The laws for one list of arguments: what is written is also written for the format with numbers for
its asterisks, and it is what is written for the parts of the format. -/
def LawsAt (strings : Word → List Byte) (f : Format) (args : List Word) : Prop :=
  ∃ out, Writes strings f args out ∧ Writes strings (settle f args).1 (settle f args).2 out ∧
    ∀ f₁ f₂, f = f₁ ++ f₂ → ∃ out₁ out₂, Writes strings f₁ (args.take (named f₁)) out₁ ∧
      Writes strings f₂ (args.drop (named f₁)) out₂ ∧ out = out₁ ++ out₂

/-- The laws of a format and its parts. -/
def Lawful (strings : Word → List Byte) (f : Format) : Prop :=
  ∀ g, g <:+: f → ∀ args, args.length = named g → LawsAt strings g args

/-- No asterisk. -/
def Starless (f : Format) : Prop := ∀ it ∈ f, it.stars = 0

variable {strings : Word → List Byte} {flags : Flags} {fmt rest : List Byte} {s : Out} {sp : Spec}

/-! ## Scanning -/

/-- A character at which the flags, a number and an asterisk end. -/
def Ends (b : Byte) : Prop :=
  isDigit b = false ∧ b ≠ 45 ∧ b ≠ 43 ∧ b ≠ 32 ∧ b ≠ 35 ∧ b ≠ 42

theorem scanFlags_end {b : Byte} (hb : Ends b) : scanFlags (b :: rest) flags = (flags, b :: rest) := by
  obtain ⟨hdigit, h45, h43, h32, h35, -⟩ := hb
  have h48 : b ≠ 48 := fun h => by
    rw [h] at hdigit
    revert hdigit
    decide
  rw [scanFlags, if_neg h45, if_neg h43, if_neg h32, if_neg h35, if_neg h48]

theorem scanFlags_flags : ∀ (fl : List FlagChar) (flags : Flags), ∃ flags', ∀ rest,
    scanFlags (fl.map FlagChar.byte ++ rest) flags = scanFlags rest flags'
  | [], flags => ⟨flags, fun _ => rfl⟩
  | .minus :: fl, flags => scanFlags_flags fl { flags with left := true }
  | .plus :: fl, flags => scanFlags_flags fl { flags with plus := true }
  | .space :: fl, flags => scanFlags_flags fl { flags with space := true }
  | .hash :: fl, flags => scanFlags_flags fl { flags with special := true }
  | .zero :: fl, flags => scanFlags_flags fl { flags with zeropad := true }

theorem isDigit_digitByte (d : Fin 10) : isDigit (digitByte d) = true := by
  revert d
  decide

theorem skipAtoi_digits : ∀ (ds : List (Fin 10)) (i : Word), ∃ w, ∀ (b : Byte) (rest : List Byte),
    isDigit b = false → skipAtoi (ds.map digitByte ++ b :: rest) i = (w, b :: rest)
  | [], i => ⟨i, fun b rest hb => by rw [List.map_nil, List.nil_append, skipAtoi, if_neg (by simp [hb])]⟩
  | d :: ds, i => by
    obtain ⟨w, hw⟩ := skipAtoi_digits ds (i * 10 + (digitByte d).setWidth 32 - 48)
    refine ⟨w, fun b rest hb => ?_⟩
    rw [List.map_cons, List.cons_append, skipAtoi, if_pos (isDigit_digitByte d), hw b rest hb]

/-- Zeros at the beginning of a width are flags. -/
theorem scanFlags_digits : ∀ (ds : List (Fin 10)) (flags : Flags),
    ∃ (flags' : Flags) (ds' : List (Fin 10)), ∀ b rest, Ends b →
    scanFlags (ds.map digitByte ++ b :: rest) flags = (flags', ds'.map digitByte ++ b :: rest) := by
  intro ds
  induction ds with
  | nil => exact fun flags => ⟨flags, [], fun b rest hb => scanFlags_end hb⟩
  | cons d ds ih =>
    intro flags
    by_cases hd : d = 0
    · subst hd
      obtain ⟨flags', ds', h⟩ := ih { flags with zeropad := true }
      exact ⟨flags', ds', fun b rest hb => h b rest hb⟩
    · have hflag : digitByte d ≠ 45 ∧ digitByte d ≠ 43 ∧ digitByte d ≠ 32 ∧ digitByte d ≠ 35 ∧
          digitByte d ≠ 48 := by
        revert d
        decide
      obtain ⟨h45, h43, h32, h35, h48⟩ := hflag
      refine ⟨flags, d :: ds, fun b rest _ => ?_⟩
      rw [List.map_cons, List.cons_append, scanFlags, if_neg h45, if_neg h43, if_neg h32, if_neg h35,
        if_neg h48]

theorem scanWidth_digits (ds : List (Fin 10)) (flags : Flags) : ∃ w, ∀ b rest s, Ends b →
    scanWidth (ds.map digitByte ++ b :: rest) flags s = .ok (w, flags, b :: rest, s) := by
  cases ds with
  | nil =>
    refine ⟨-1, fun b rest s hb => ?_⟩
    have hno : ¬ isDigit b = true := by simp [hb.1]
    rw [List.map_nil, List.nil_append]
    unfold scanWidth
    dsimp only
    rw [if_neg hno, if_neg hb.2.2.2.2.2]
  | cons d ds =>
    obtain ⟨w, hw⟩ := skipAtoi_digits (d :: ds) 0
    refine ⟨w, fun b rest s hb => ?_⟩
    have hskip := hw b rest hb.1
    rw [List.map_cons, List.cons_append] at hskip ⊢
    unfold scanWidth
    dsimp only
    rw [if_pos (isDigit_digitByte d), hskip]

/-- A character that follows a precision. -/
theorem scanPrecision_digits (precision : Option Amount) (h : precisionStars precision = 0) : ∃ p,
    ∀ b rest s, Ends b → b ≠ 46 →
      scanPrecision (precisionText precision ++ b :: rest) s = .ok (p, b :: rest, s) := by
  match precision, h with
  | none, _ =>
    refine ⟨-1, fun b rest s _ hb => ?_⟩
    rw [precisionText, List.nil_append]
    unfold scanPrecision
    dsimp only
    rw [if_neg hb]
  | some (.digits []), _ =>
    refine ⟨0, fun b rest s hb _ => ?_⟩
    have hno : ¬ isDigit b = true := by simp [hb.1]
    simp only [precisionText, Amount.text, List.map_nil, List.cons_append, List.nil_append, scanPrecision,
      if_true, scanPoint, if_neg hno, if_neg hb.2.2.2.2.2]
    rfl
  | some (.digits (d :: ds)), _ =>
    obtain ⟨w, hw⟩ := skipAtoi_digits (d :: ds) 0
    refine ⟨if w.toInt < 0 then 0 else w, fun b rest s hb _ => ?_⟩
    have hskip := hw b rest hb.1
    rw [List.map_cons, List.cons_append] at hskip
    simp only [precisionText, Amount.text, List.map_cons, List.cons_append, scanPrecision, if_true,
      scanPoint, if_pos (isDigit_digitByte d), hskip]
    rfl

theorem scanQualifier_byte (q : Option Qualifier) {b : Byte} (hb : b ≠ 104 ∧ b ≠ 108 ∧ b ≠ 76)
    (rest : List Byte) :
    scanQualifier ((q.map Qualifier.byte).toList ++ b :: rest) = b :: rest := by
  obtain ⟨h, hl, hL⟩ := hb
  match q with
  | none =>
    have hno : ¬ (b = 104 ∨ b = 108 ∨ b = 76) := not_or.mpr ⟨h, not_or.mpr ⟨hl, hL⟩⟩
    rw [Option.map_none, Option.toList_none, List.nil_append, scanQualifier, if_neg hno]
  | some .h => rfl
  | some .l => rfl
  | some .L => rfl

theorem conv_ends (k : Conv) : Ends k.byte ∧ k.byte ≠ 46 ∧ k.byte ≠ 104 ∧ k.byte ≠ 108 ∧ k.byte ≠ 76 := by
  unfold Ends
  cases k <;> decide

/-- What follows the precision begins with a character that ends it. -/
theorem qualifier_ends (q : Option Qualifier) (k : Conv) (rest : List Byte) : ∃ b rest',
    (q.map Qualifier.byte).toList ++ k.byte :: rest = b :: rest' ∧ Ends b ∧ b ≠ 46 := by
  match q with
  | none => exact ⟨k.byte, rest, rfl, (conv_ends k).1, (conv_ends k).2.1⟩
  | some .h => exact ⟨104, k.byte :: rest, rfl, by unfold Ends; decide, by decide⟩
  | some .l => exact ⟨108, k.byte :: rest, rfl, by unfold Ends; decide, by decide⟩
  | some .L => exact ⟨76, k.byte :: rest, rfl, by unfold Ends; decide, by decide⟩

/-- What follows the width begins with a character that ends it. -/
theorem precision_ends (precision : Option Amount) (q : Option Qualifier) (k : Conv) (rest : List Byte) :
    ∃ b rest', precisionText precision ++ ((q.map Qualifier.byte).toList ++ k.byte :: rest) = b :: rest' ∧
      Ends b := by
  match precision with
  | none =>
    obtain ⟨b, rest', heq, hb, -⟩ := qualifier_ends q k rest
    exact ⟨b, rest', heq, hb⟩
  | some a => exact ⟨46, _, rfl, by unfold Ends; decide⟩

/-- A conversion without an asterisk is read as a whole, whatever follows it. -/
theorem directive_eq (strings : Word → List Byte) (sp : Spec) (h : sp.stars = 0) :
    ∃ flags width precision, ∀ rest s,
    directive strings (sp.text ++ rest) s =
      (convert strings sp.conv.byte flags width precision s).map fun s => (rest, s) := by
  obtain ⟨fl, width, precision, q, k⟩ := sp
  have hstars : width.stars = 0 ∧ precisionStars precision = 0 := Nat.add_eq_zero_iff.mp h
  obtain ⟨hwidth, hprecision⟩ := hstars
  cases width with
  | star => cases hwidth
  | digits ds =>
    obtain ⟨flags₁, hflags⟩ := scanFlags_flags fl noFlags
    obtain ⟨flags₂, ds', hzeros⟩ := scanFlags_digits ds flags₁
    obtain ⟨w, hw⟩ := scanWidth_digits ds' flags₂
    obtain ⟨p, hp⟩ := scanPrecision_digits precision hprecision
    refine ⟨flags₂, w, p, fun rest s => ?_⟩
    obtain ⟨b, rest₁, heq, hb⟩ := precision_ends precision q k rest
    obtain ⟨b', rest₂, heq', hb', hpoint⟩ := qualifier_ends q k rest
    have hk := conv_ends k
    have htext : Spec.text ⟨fl, .digits ds, precision, q, k⟩ ++ rest =
        fl.map FlagChar.byte ++ (ds.map digitByte ++ b :: rest₁) := by
      rw [← heq]
      simp [Spec.text, Amount.text]
    have hscan : scanPrecision (b :: rest₁) s = .ok (p, b' :: rest₂, s) := by
      rw [← heq, heq']
      exact hp b' rest₂ s hb' hpoint
    have hqual : scanQualifier (b' :: rest₂) = k.byte :: rest := by
      rw [← heq']
      exact scanQualifier_byte q hk.2.2 rest
    rw [htext]
    simp only [directive, hflags, hzeros b rest₁ hb, hw b rest₁ s hb, hscan, hqual, bind, Except.bind]
    cases convert strings k.byte flags₂ w p s <;> rfl

/-! ## What a conversion writes -/

theorem predecrement_append (n : Word) : ∃ n' t, ∀ str, predecrement n str = (n', str ++ t) := by
  suffices h : ∀ m : Nat, ∀ n : Word, (n - 1).toInt.toNat = m →
      ∃ n' t, ∀ str, predecrement n str = (n', str ++ t) from h _ n rfl
  intro m
  induction m with
  | zero =>
    intro n hm
    have hno : ¬ 0 < (n - 1).toInt := by omega
    refine ⟨n - 1, [], fun str => ?_⟩
    rw [predecrement, if_neg hno, List.append_nil]
  | succ m ih =>
    intro n hm
    have hyes : 0 < (n - 1).toInt := by omega
    have hpred := toInt_pred (n := n - 1) (by omega)
    obtain ⟨n', t, ht⟩ := ih (n - 1) (by omega)
    refine ⟨n', 32 :: t, fun str => ?_⟩
    rw [predecrement, if_pos hyes, ht, List.append_assoc, List.singleton_append]

theorem charText_append (flags : Flags) (width : Word) (c : Byte) :
    ∃ t, ∀ str, charText flags width c str = str ++ t := by
  cases hl : flags.left with
  | true =>
    obtain ⟨n, t, ht⟩ := predecrement_append width
    exact ⟨c :: t, fun str => by simp [charText, hl, ht]⟩
  | false =>
    obtain ⟨n, t, ht⟩ := predecrement_append width
    obtain ⟨n', t', ht'⟩ := predecrement_append n
    exact ⟨t ++ c :: t', fun str => by simp [charText, hl, ht, ht']⟩

theorem stringText_append (flags : Flags) (width precision : Word) (src : List Byte) :
    ∃ t, ∀ str, stringText flags width precision src str = str ++ t := by
  cases hl : flags.left <;>
    exact ⟨_, fun str => by simp [stringText, hl, countdown_eq, List.append_assoc]; rfl⟩

theorem layout_append (tmp : List Byte) (sign c : Byte) (base size precision : Word) (type : Flags) :
    ∃ t, ∀ str, layout tmp sign c base size precision type str = str ++ t := by
  have hcopy : ∀ str, copyLoop tmp tmp.length str = str ++ (tmp.take tmp.length).reverse :=
    fun str => copyLoop_eq tmp tmp.length str (Nat.le_refl _)
  unfold layout
  simp only [sign_text, prefix_text, hcopy, countdown_eq]
  cases type.left <;> cases type.zeropad <;>
    exact ⟨_, fun str => by simp [List.append_assoc]; rfl⟩

/-- In the bases that occur a number is written behind what there is. -/
theorem number_append (base : Word) (hbase : base = 8 ∨ base = 10 ∨ base = 16) (num size precision : Word)
    (type : Flags) : ∃ t, ∀ str, number str num base size precision type = .ok (str ++ t) := by
  have hlow : 2 ≤ base.toInt ∧ base.toInt ≤ 36 ∧ 2 ≤ base.toNat := by
    obtain rfl | rfl | rfl := hbase <;> decide
  have hno : ¬ (base.toInt < 2 ∨ 36 < base.toInt) := by omega
  unfold number
  dsimp only
  generalize (if type.left = true then { type with zeropad := false } else type) = type
  obtain ⟨tmp, htmp, -⟩ := tmp_eq base type.small hlow.2.2 (signOf type num).2
  obtain ⟨t, ht⟩ := layout_append tmp (signOf type num).1 (if type.zeropad then 48 else 32) base
    (specialSize type base (if (signOf type num).1 ≠ 0 then size - 1 else size)) precision type
  refine ⟨t, fun str => ?_⟩
  simp only [hno, if_false, htmp, ht]

theorem numberText_append (base : Word) (hbase : base = 8 ∨ base = 10 ∨ base = 16) (width precision a : Word)
    (flags : Flags) : ∃ t, ∀ str args stores,
      numberText base width precision flags ⟨str, a :: args, stores⟩ = .ok ⟨str ++ t, args, stores⟩ := by
  obtain ⟨t, ht⟩ := number_append base hbase a width precision flags
  exact ⟨t, fun str args stores => by simp [numberText, vaArg, bind, Except.bind, ht, pure, Except.pure]⟩

/-- A conversion takes the arguments it names and writes behind what there is. -/
theorem convert_append (strings : Word → List Byte) (k : Conv) (flags : Flags) (width precision : Word)
    (args : List Word) (hargs : args.length = k.named) : ∃ t, ∀ str more stores,
      convert strings k.byte flags width precision ⟨str, args ++ more, stores⟩ =
        .ok ⟨str ++ t, more, stores⟩ := by
  have hnumber : ∀ (base width a : Word) (flags : Flags), base = 8 ∨ base = 10 ∨ base = 16 →
      ∃ t, ∀ str more stores, numberText base width precision flags ⟨str, [a] ++ more, stores⟩ =
        .ok ⟨str ++ t, more, stores⟩ :=
    fun base width a flags hbase => numberText_append base hbase width precision a flags
  match k, args, hargs with
  | .percent, [], _ => exact ⟨[37], fun str more stores => rfl⟩
  | .c, [a], _ =>
    obtain ⟨t, ht⟩ := charText_append flags width (a.setWidth 8)
    exact ⟨t, fun str more stores => by rw [← ht]; rfl⟩
  | .s, [a], _ =>
    obtain ⟨t, ht⟩ := stringText_append flags width precision (strings a)
    exact ⟨t, fun str more stores => by rw [← ht]; rfl⟩
  | .o, [a], _ => exact hnumber 8 width a flags (by simp)
  | .p, [a], _ =>
    by_cases hwidth : width = -1
    · obtain ⟨t, ht⟩ := hnumber 16 8 a { flags with zeropad := true } (by simp)
      refine ⟨t, fun str more stores => ?_⟩
      rw [← ht, hwidth]
      rfl
    · obtain ⟨t, ht⟩ := hnumber 16 width a flags (by simp)
      refine ⟨t, fun str more stores => ?_⟩
      rw [← ht]
      exact if_neg hwidth
  | .x, [a], _ => exact hnumber 16 width a { flags with small := true } (by simp)
  | .X, [a], _ => exact hnumber 16 width a flags (by simp)
  | .d, [a], _ => exact hnumber 10 width a { flags with sign := true } (by simp)
  | .i, [a], _ => exact hnumber 10 width a { flags with sign := true } (by simp)
  | .u, [a], _ => exact hnumber 10 width a flags (by simp)

/-! ## Formats without an asterisk -/

theorem item_text_pos (it : Item) : 1 ≤ it.text.length := by
  cases it with
  | char c h => exact Nat.le_refl 1
  | conversion sp => exact Nat.succ_le_succ (Nat.zero_le _)

theorem length_le_text (f : Format) : f.length ≤ (text f).length := by
  induction f with
  | nil => exact Nat.le_refl 0
  | cons it f ih =>
    have hpos := item_text_pos it
    rw [text, List.flatMap_cons, List.length_append, List.length_cons]
    rw [text] at ih
    omega

@[simp] theorem text_cons (it : Item) (f : Format) : text (it :: f) = it.text ++ text f := rfl

@[simp] theorem named_cons (it : Item) (f : Format) : named (it :: f) = it.named + named f := rfl

theorem item_run (strings : Word → List Byte) (it : Item) (h : it.stars = 0) (args : List Word)
    (hargs : args.length = it.named) :
    ∃ t, ∀ n rest str more stores,
      formatLoop strings (n + 1) (it.text ++ rest) ⟨str, args ++ more, stores⟩ =
        formatLoop strings n rest ⟨str ++ t, more, stores⟩ := by
  cases it with
  | char c hc =>
    rw [List.eq_nil_of_length_eq_zero hargs]
    exact ⟨[c], fun n rest str more stores => if_pos hc.1⟩
  | conversion sp =>
    have hnamed : args.length = sp.conv.named := by
      have hzero : sp.stars = 0 := h
      rw [hargs, Item.named, hzero, Nat.zero_add]
    obtain ⟨flags, width, precision, hdirective⟩ := directive_eq strings sp h
    obtain ⟨t, ht⟩ := convert_append strings sp.conv flags width precision args hnamed
    refine ⟨t, fun n rest str more stores => ?_⟩
    have hrun := hdirective rest ⟨str, args ++ more, stores⟩
    rw [ht] at hrun
    rw [Item.text, List.cons_append, formatLoop, if_neg (by simp), hrun]
    rfl

theorem format_run (strings : Word → List Byte) :
    ∀ (f : Format), Starless f → ∀ args : List Word, args.length = named f →
    ∃ t, ∀ n rest str more stores,
      formatLoop strings (n + f.length) (text f ++ rest) ⟨str, args ++ more, stores⟩ =
        formatLoop strings n rest ⟨str ++ t, more, stores⟩ := by
  intro f
  induction f with
  | nil =>
    intro _ args hargs
    rw [List.eq_nil_of_length_eq_zero hargs]
    exact ⟨[], fun n rest str more stores => by simp [text]⟩
  | cons it f ih =>
    intro hf args hargs
    rw [named_cons] at hargs
    have htake : (args.take it.named).length = it.named := by
      rw [List.length_take]
      omega
    have hdrop : (args.drop it.named).length = named f := by
      rw [List.length_drop]
      omega
    obtain ⟨t, ht⟩ := item_run strings it (hf it List.mem_cons_self) _ htake
    obtain ⟨t', ht'⟩ := ih (fun it' h => hf it' (List.mem_cons_of_mem it h)) _ hdrop
    refine ⟨t ++ t', fun n rest str more stores => ?_⟩
    have hargs' : args ++ more = args.take it.named ++ (args.drop it.named ++ more) := by
      rw [← List.append_assoc, List.take_append_drop]
    rw [hargs', text_cons, List.append_assoc, List.length_cons, ← Nat.add_assoc, ht, ht', List.append_assoc]

theorem writes_of_run {f : Format} {args : List Word} {t : List Byte} (h : ∀ n rest str more stores,
    formatLoop strings (n + f.length) (text f ++ rest) ⟨str, args ++ more, stores⟩ =
      formatLoop strings n rest ⟨str ++ t, more, stores⟩) : Writes strings f args t := by
  have hlen := length_le_text f
  have hrun := h ((text f).length - f.length + 1) [] [] [] []
  have hfuel : (text f).length - f.length + 1 + f.length = (text f).length + 1 := by omega
  rw [hfuel, List.append_nil, List.append_nil, List.nil_append] at hrun
  rw [Writes, vsprintf, hrun]
  rfl

theorem Writes.unique {f : Format} {args : List Word} {t t' : List Byte} (h : Writes strings f args t)
    (h' : Writes strings f args t') : t = t' := by
  unfold Writes at h h'
  rw [h] at h'
  grind

theorem named_append (f f' : Format) : named (f ++ f') = named f + named f' := by
  simp [named]

theorem settle_starless : ∀ (f : Format), Starless f → ∀ args : List Word, args.length = named f →
    settle f args = (f, args) := by
  intro f
  induction f with
  | nil =>
    intro _ args hargs
    rw [List.eq_nil_of_length_eq_zero hargs]
    rfl
  | cons it f ih =>
    intro hf args hargs
    have hrest : Starless f := fun it' h => hf it' (List.mem_cons_of_mem it h)
    have hit := hf it List.mem_cons_self
    rw [named_cons] at hargs
    cases it with
    | char c hc =>
      rw [settle, ih hrest args (by rw [hargs]; exact Nat.zero_add _)]
    | conversion sp =>
      have hsettle : sp.settle args = (sp, args) := by
        obtain ⟨fl, width, precision, q, k⟩ := sp
        match width, precision, hit with
        | .digits ds, none, _ => rfl
        | .digits ds, some (.digits ds'), _ => rfl
      have hnamed : (Item.conversion sp).named = sp.conv.named := by
        have hzero : sp.stars = 0 := hit
        rw [Item.named, hzero, Nat.zero_add]
      have hdrop : (args.drop sp.conv.named).length = named f := by
        rw [List.length_drop]
        omega
      rw [settle, hsettle]
      dsimp only
      rw [ih hrest _ hdrop, List.take_append_drop]

theorem starless_lawsAt {f : Format} (hf : Starless f) {args : List Word} (hargs : args.length = named f) :
    LawsAt strings f args := by
  obtain ⟨t, ht⟩ := format_run strings f hf args hargs
  refine ⟨t, writes_of_run ht, ?_, ?_⟩
  · rw [settle_starless f hf args hargs]
    exact writes_of_run ht
  · intro f₁ f₂ heq
    subst heq
    rw [named_append] at hargs
    have htake : (args.take (named f₁)).length = named f₁ := by
      rw [List.length_take]
      omega
    have hdrop : (args.drop (named f₁)).length = named f₂ := by
      rw [List.length_drop]
      omega
    obtain ⟨t₁, h₁⟩ := format_run strings f₁ (fun it h => hf it (List.mem_append_left f₂ h)) _ htake
    obtain ⟨t₂, h₂⟩ := format_run strings f₂ (fun it h => hf it (List.mem_append_right f₁ h)) _ hdrop
    refine ⟨t₁, t₂, writes_of_run h₁, writes_of_run h₂, ?_⟩
    refine (writes_of_run ht).unique (writes_of_run fun n rest str more stores => ?_)
    have hargs' : args ++ more = args.take (named f₁) ++ (args.drop (named f₁) ++ more) := by
      rw [← List.append_assoc, List.take_append_drop]
    have hn : n + (f₁ ++ f₂).length = n + f₂.length + f₁.length := by
      rw [List.length_append]
      omega
    have htext : text (f₁ ++ f₂) ++ rest = text f₁ ++ (text f₂ ++ rest) := by
      simp [text, List.append_assoc]
    rw [hargs', hn, htext, h₁, h₂, List.append_assoc]

/-! ## Formats with an asterisk -/

/-- Characters without a '%' before the last one are copied; a '%' at the end is too. -/
theorem literal_run : ∀ (l : List Byte) (c : Byte) (n : Nat) (s : Out), (∀ b ∈ l, b ≠ 37) →
    formatLoop strings (n + l.length + 2) (l ++ [c]) s = .ok { s with str := s.str ++ (l ++ [c]) } := by
  intro l
  induction l with
  | nil =>
    intro c n s _
    by_cases hc : c = 37
    · rw [hc]
      rfl
    · rw [List.nil_append, formatLoop, if_pos hc]
      rfl
  | cons b l ih =>
    intro c n s hl
    have hb : b ≠ 37 := hl b List.mem_cons_self
    have hfuel : n + (b :: l).length + 2 = (n + l.length + 2) + 1 := by
      rw [List.length_cons]
      omega
    rw [hfuel, List.cons_append, formatLoop, if_pos hb, ih c n _ fun b' h => hl b' (List.mem_cons_of_mem b h)]
    simp [Out.put]

theorem digitByte_ne (d : Fin 10) : digitByte d ≠ 37 := by
  revert d
  decide

theorem precisionText_ne {precision : Option Amount} {b : Byte} (hb : b ∈ precisionText precision) :
    b ≠ 37 := by
  have hdigits : ∀ ds : List (Fin 10), b ∈ ds.map digitByte → b ≠ 37 := by
    intro ds hmem
    obtain ⟨d, -, rfl⟩ := List.mem_map.mp hmem
    exact digitByte_ne d
  match precision with
  | some .star =>
    have hcases : b = 46 ∨ b = 42 := by simpa [precisionText, Amount.text] using hb
    obtain rfl | rfl := hcases <;> decide
  | some (.digits ds) =>
    obtain rfl | hmem := List.mem_cons.mp hb
    · decide
    · exact hdigits ds hmem

theorem qualifierText_ne {q : Option Qualifier} {b : Byte} (hb : b ∈ (q.map Qualifier.byte).toList) :
    b ≠ 37 := by
  match q with
  | some q =>
    have heq : b = q.byte := by simpa using hb
    rw [heq]
    cases q <;> decide

/-- After the first asterisk the conversion is an asterisk, and its rest is text. -/
theorem directive_star (strings : Word → List Byte) (sp : Spec) (h : sp.stars ≠ 0) :
    ∃ l : List Byte, (∀ b ∈ l, b ≠ 37) ∧
    l.length < sp.text.length ∧ ∀ (a : Word) args stores str,
      directive strings sp.text ⟨str, a :: args, stores⟩ =
        .ok (l ++ [sp.conv.byte], ⟨str ++ [37, 42], args, stores⟩) := by
  obtain ⟨fl, width, precision, q, k⟩ := sp
  obtain ⟨flags₁, hflags⟩ := scanFlags_flags fl noFlags
  cases width with
  | star =>
    refine ⟨precisionText precision ++ (q.map Qualifier.byte).toList, ?_, ?_, fun a args stores str => ?_⟩
    · intro b hb
      obtain hb | hb := List.mem_append.mp hb
      · exact precisionText_ne hb
      · exact qualifierText_ne hb
    · simp [Spec.text, Amount.text]
      omega
    · by_cases hneg : a.toInt < 0 <;>
        simp [Spec.text, Amount.text, directive, hflags, scanFlags, scanWidth, isDigit, vaArg, hneg, bind,
          Except.bind, pure, Except.pure, scanPrecision, scanQualifier, convert, Out.put]
  | digits ds =>
    match precision, h with
    | none, h => exact absurd rfl h
    | some (.digits ds'), h => exact absurd rfl h
    | some .star, _ =>
      obtain ⟨flags₂, ds', hzeros⟩ := scanFlags_digits ds flags₁
      obtain ⟨w, hw⟩ := scanWidth_digits ds' flags₂
      have hend : Ends 46 := by unfold Ends; decide
      refine ⟨(q.map Qualifier.byte).toList, fun b hb => qualifierText_ne hb, ?_, fun a args stores str => ?_⟩
      · simp [Spec.text]
        omega
      · have htext : Spec.text ⟨fl, .digits ds, some .star, q, k⟩ = fl.map FlagChar.byte ++
            (ds.map digitByte ++ 46 :: 42 :: ((q.map Qualifier.byte).toList ++ [k.byte])) := rfl
        rw [htext]
        simp only [directive, hflags, hzeros 46 _ hend, hw 46 _ _ hend, bind, Except.bind]
        simp [scanPrecision, scanPoint, isDigit, vaArg, scanQualifier, convert, Out.put, bind, Except.bind,
          pure, Except.pure]

/-- A conversion with an asterisk takes one argument and is written itself. -/
theorem star_run (strings : Word → List Byte) (sp : Spec) (h : sp.stars ≠ 0) (a : Word)
    (args : List Word) : ∃ out : List Byte,
    3 ≤ out.length ∧
      vsprintf strings (text [.conversion sp]) (a :: args) = .ok (out.length, ⟨out, args, []⟩) := by
  obtain ⟨l, hl, hlen, hdirective⟩ := directive_star strings sp h
  refine ⟨[37, 42] ++ (l ++ [sp.conv.byte]), by simp, ?_⟩
  have htext : text [.conversion sp] = 37 :: sp.text := by
    simp [text, Item.text]
  obtain ⟨n, hn⟩ := Nat.exists_eq_add_of_lt hlen
  have hfuel : (text [.conversion sp]).length + 1 = (n + l.length + 2) + 1 := by
    rw [htext, List.length_cons]
    omega
  have hrun : formatLoop strings ((text [.conversion sp]).length + 1) (text [.conversion sp])
      ⟨[], a :: args, []⟩ = .ok ⟨[37, 42] ++ (l ++ [sp.conv.byte]), args, []⟩ := by
    rw [hfuel, htext, formatLoop, if_neg (by simp), hdirective]
    exact literal_run l sp.conv.byte n _ hl
  rw [vsprintf, hrun]
  rfl

theorem settle_stars (sp : Spec) (args : List Word) :
    (sp.settle args).1.stars = 0 ∧ (sp.settle args).1.conv = sp.conv := by
  obtain ⟨fl, width, precision, q, k⟩ := sp
  cases width <;> match precision with
    | none => exact ⟨rfl, rfl⟩
    | some (.digits _) => exact ⟨rfl, rfl⟩
    | some .star => exact ⟨rfl, rfl⟩

/-- `%%` with anything between is one character, when it is read as a whole. -/
theorem percent_writes (sp : Spec) (h : sp.stars = 0) (hconv : sp.conv = .percent) {args : List Word}
    {out : List Byte} (hw : Writes strings [.conversion sp] args out) : out = [37] := by
  obtain ⟨flags, width, precision, hdirective⟩ := directive_eq strings sp h
  have hpos := item_text_pos (.conversion sp)
  have htext : text [.conversion sp] = 37 :: (sp.text ++ []) := by
    simp [text, Item.text]
  have hrun : formatLoop strings ((text [.conversion sp]).length + 1) (text [.conversion sp])
      ⟨[], args, []⟩ = .ok ⟨[37], args, []⟩ := by
    rw [htext, formatLoop, if_neg (by simp), hdirective, hconv]
    rfl
  rw [Writes, vsprintf, hrun] at hw
  have hout : [37] = out := congrArg Out.str (Prod.mk.inj (Except.ok.inj hw)).2
  exact hout.symm

theorem star_not_lawsAt (sp : Spec) (h : sp.stars ≠ 0) (args : List Word)
    (hargs : args.length = named [.conversion sp]) : ¬ LawsAt strings [.conversion sp] args := by
  rintro ⟨out, hw, hsettled, -⟩
  have hnamed : args.length = sp.stars + sp.conv.named := by
    rw [hargs]
    exact Nat.add_zero _
  cases args with
  | nil =>
    rw [List.length_nil] at hnamed
    omega
  | cons a args =>
    obtain ⟨out', hlen, hrun⟩ := star_run strings sp h a args
    rw [Writes, hrun] at hw
    have hsame : Out.mk out' args [] = ⟨out, [], []⟩ := (Prod.mk.inj (Except.ok.inj hw)).2
    obtain ⟨rfl, rfl⟩ : out' = out ∧ args = [] := ⟨congrArg Out.str hsame, congrArg Out.args hsame⟩
    have hpercent : sp.conv = .percent := by
      have hzero : sp.conv.named = 0 := by
        rw [List.length_singleton] at hnamed
        omega
      cases hk : sp.conv <;> rw [hk] at hzero <;> first | rfl | cases hzero
    obtain ⟨hstars, hconv⟩ := settle_stars sp [a]
    have hout := percent_writes (sp.settle [a]).1 hstars (by rw [hconv, hpercent]) hsettled
    rw [hout] at hlen
    simp at hlen

/-! ## The laws -/

/-- LAWS OF THE FORMATS. Of a format and of all its parts the output is that of its parts one behind the
other, and that of the format with numbers for the asterisks, exactly if there is no asterisk. -/
theorem vsprintf_laws (strings : Word → List Byte) (f : Format) : Lawful strings f ↔ Starless f := by
  constructor
  · intro hlawful it hit
    by_contra hstars
    cases it with
    | char c h => exact hstars rfl
    | conversion sp =>
      obtain ⟨f₁, f₂, rfl⟩ := List.append_of_mem hit
      have hinfix : [Item.conversion sp] <:+: f₁ ++ Item.conversion sp :: f₂ :=
        ⟨f₁, f₂, by rw [List.append_assoc, List.singleton_append]⟩
      exact star_not_lawsAt sp hstars _ List.length_replicate
        (hlawful _ hinfix (List.replicate _ 0) List.length_replicate)
  · intro hf g hg args hargs
    exact starless_lawsAt (fun it hit => hf it (hg.subset hit)) hargs

/-- `%*d` of 7 in a width of 5 is `%*d`, and the 7 is left. -/
theorem width_argument_not_settled :
    ¬ ∀ (strings : Word → List Byte) (f : Format) (args : List Word),
      args.length = named f → LawsAt strings f args := by
  intro h
  exact star_not_lawsAt ⟨[], .star, none, none, .d⟩ (by decide) [5, 7] (by decide)
    (h (fun _ => []) [.conversion ⟨[], .star, none, none, .d⟩] [5, 7] (by decide))

end Linux011.Printf
