import Linux011.Lib.Machine

/-!
# The ids of a task (`kernel/sys.c`)

An id is kept in 16 bits, and the calls are given 32: both sides of a comparison are widened, and an id
that is taken over is cut. `sys_setreuid` sets the real id before it knows about the effective one, and sets
it back.
-/

namespace Linux011.Credentials

/-- `unsigned short`. -/
abbrev Id := BitVec 16

/-- `int`. -/
abbrev Word := BitVec 32

/-! ## Code -/

/-- The ids of `struct task_struct`. -/
structure Ids where
  uid : Id
  euid : Id
  suid : Id
  gid : Id
  egid : Id
  sgid : Id
  deriving DecidableEq

/-- `suser`. -/
def Ids.suser (t : Ids) : Bool := t.euid = 0

/-- What a call returns. -/
inductive Result
  | ok
  | eperm
  deriving DecidableEq

/-- The first half of `sys_setregid`: `none` is `-EPERM`. -/
def setRgid (rgid : Word) (t : Ids) : Option Ids :=
  if 0 < rgid.toInt then
    if t.gid.setWidth 32 = rgid ∨ t.suser then some { t with gid := rgid.setWidth 16 } else none
  else some t

/-- The second half of `sys_setregid`. -/
def setEgid (egid : Word) (t : Ids) : Option Ids :=
  if 0 < egid.toInt then
    if t.gid.setWidth 32 = egid ∨ t.egid.setWidth 32 = egid ∨ t.sgid.setWidth 32 = egid ∨ t.suser then
      some { t with egid := egid.setWidth 16 }
    else none
  else some t

/-- `sys_setregid`. -/
def sysSetregid (rgid egid : Word) (t : Ids) : Result × Ids :=
  match setRgid rgid t with
  | none => (.eperm, t)
  | some t =>
    match setEgid egid t with
    | none => (.eperm, t)
    | some t => (.ok, t)

/-- `sys_setgid`. -/
def sysSetgid (gid : Word) : Ids → Result × Ids := sysSetregid gid gid

/-- The first half of `sys_setreuid`. -/
def setRuid (ruid : Word) (t : Ids) : Option Ids :=
  if 0 < ruid.toInt then
    if t.euid.setWidth 32 = ruid ∨ t.uid.setWidth 32 = ruid ∨ t.suser then
      some { t with uid := ruid.setWidth 16 }
    else none
  else some t

/-- The second half of `sys_setreuid`, with `old_ruid`. -/
def setEuid (oldRuid : Id) (euid : Word) (t : Ids) : Result × Ids :=
  if 0 < euid.toInt then
    if oldRuid.setWidth 32 = euid ∨ t.euid.setWidth 32 = euid ∨ t.suser then
      (.ok, { t with euid := euid.setWidth 16 })
    else (.eperm, { t with uid := oldRuid })
  else (.ok, t)

/-- `sys_setreuid`. -/
def sysSetreuid (ruid euid : Word) (t : Ids) : Result × Ids :=
  match setRuid ruid t with
  | none => (.eperm, t)
  | some t' => setEuid t.uid euid t'

/-- `sys_setuid`. -/
def sysSetuid (uid : Word) : Ids → Result × Ids := sysSetreuid uid uid

inductive Call
  | setuid (uid : Word)
  | setreuid (ruid euid : Word)
  | setgid (gid : Word)
  | setregid (rgid egid : Word)

def Call.run : Call → Ids → Result × Ids
  | .setuid uid => sysSetuid uid
  | .setreuid ruid euid => sysSetreuid ruid euid
  | .setgid gid => sysSetgid gid
  | .setregid rgid egid => sysSetregid rgid egid

/-- A call as a step, whatever it returns. -/
def step (t : Ids) (e : Call) : Option Ids := some (e.run t).2

/-! ## One call -/

/-- The ids a task with the ids `t₀` may come to have without privilege. -/
structure Within (t₀ t : Ids) : Prop where
  uid : t.uid = t₀.uid ∨ t.uid = t₀.euid
  euid : t.euid = t₀.uid ∨ t.euid = t₀.euid
  euid_ne : t.euid ≠ 0
  gid : t.gid = t₀.gid
  sgid : t.sgid = t₀.sgid
  egid : t.egid = t₀.gid ∨ t.egid = t₀.egid ∨ t.egid = t₀.sgid

variable {t t' t₀ : Ids} {r : Result}

theorem suser_false (h : t.euid ≠ 0) : t.suser = false := decide_eq_false h

/-- An id that is equal to an argument is what is left of the argument. -/
theorem setWidth_of_eq {a : Id} {w : Word} (h : a.setWidth 32 = w) : w.setWidth 16 = a := by
  rw [← h]
  simp

/-- A positive argument that is equal to an id is not cut to 0. -/
theorem ne_zero_of_pos {a : Id} {w : Word} (h : a.setWidth 32 = w) (hw : 0 < w.toInt) : a ≠ 0 := by
  intro ha
  rw [← h, ha] at hw
  revert hw
  decide

theorem setRgid_eq {rgid : Word} (h : t.euid ≠ 0) (hset : setRgid rgid t = some t') : t' = t := by
  unfold setRgid at hset
  rw [suser_false h] at hset
  split at hset
  · split at hset
    · rename_i hgid
      have heq : t.gid.setWidth 32 = rgid := by simpa using hgid
      rw [setWidth_of_eq heq] at hset
      exact (Option.some.inj hset).symm
    · cases hset
  · exact (Option.some.inj hset).symm

theorem setEgid_cases {egid : Word} (h : t.euid ≠ 0) (hset : setEgid egid t = some t') :
    t' = t ∨ ∃ g, t' = { t with egid := g } ∧ (g = t.gid ∨ g = t.egid ∨ g = t.sgid) := by
  unfold setEgid at hset
  rw [suser_false h] at hset
  split at hset
  · split at hset
    · rename_i hegid
      refine .inr ⟨egid.setWidth 16, (Option.some.inj hset).symm, ?_⟩
      obtain hg | hg | hg | hg := hegid
      · exact .inl (setWidth_of_eq hg)
      · exact .inr (.inl (setWidth_of_eq hg))
      · exact .inr (.inr (setWidth_of_eq hg))
      · cases hg
    · cases hset
  · exact .inl (Option.some.inj hset).symm

theorem sysSetregid_cases {rgid egid : Word} (h : t.euid ≠ 0)
    (hcall : sysSetregid rgid egid t = (r, t')) :
    t' = t ∨ r = .ok ∧ ∃ g, t' = { t with egid := g } ∧ (g = t.gid ∨ g = t.egid ∨ g = t.sgid) := by
  unfold sysSetregid at hcall
  cases hr : setRgid rgid t with
  | none =>
    rw [hr] at hcall
    exact .inl (Prod.mk.inj hcall).2.symm
  | some u =>
    rw [hr, setRgid_eq h hr] at hcall
    dsimp only at hcall
    cases he : setEgid egid t with
    | none =>
      rw [he] at hcall
      exact .inl (Prod.mk.inj hcall).2.symm
    | some v =>
      rw [he] at hcall
      obtain ⟨rfl, rfl⟩ := Prod.mk.inj hcall
      obtain hsame | hset := setEgid_cases h he
      · exact .inl hsame
      · exact .inr ⟨rfl, hset⟩

theorem setRuid_cases {ruid : Word} (h : t.euid ≠ 0) (hset : setRuid ruid t = some t') :
    ∃ u, t' = { t with uid := u } ∧ (u = t.uid ∨ u = t.euid) := by
  unfold setRuid at hset
  rw [suser_false h] at hset
  split at hset
  · split at hset
    · rename_i huid
      refine ⟨ruid.setWidth 16, (Option.some.inj hset).symm, ?_⟩
      obtain hu | hu | hu := huid
      · exact .inr (setWidth_of_eq hu)
      · exact .inl (setWidth_of_eq hu)
      · cases hu
    · cases hset
  · exact ⟨t.uid, (Option.some.inj hset).symm, .inl rfl⟩

theorem setEuid_cases {oldRuid : Id} {euid : Word} (h : t.euid ≠ 0)
    (hset : setEuid oldRuid euid t = (r, t')) :
    r = .eperm ∧ t' = { t with uid := oldRuid } ∨
      r = .ok ∧ ∃ e, t' = { t with euid := e } ∧ e ≠ 0 ∧ (e = oldRuid ∨ e = t.euid) := by
  unfold setEuid at hset
  rw [suser_false h] at hset
  split at hset
  · rename_i hpos
    split at hset
    · rename_i heuid
      obtain ⟨rfl, rfl⟩ := Prod.mk.inj hset
      refine .inr ⟨rfl, euid.setWidth 16, rfl, ?_⟩
      obtain he | he | he := heuid
      · exact ⟨setWidth_of_eq he ▸ ne_zero_of_pos he hpos, .inl (setWidth_of_eq he)⟩
      · exact ⟨setWidth_of_eq he ▸ ne_zero_of_pos he hpos, .inr (setWidth_of_eq he)⟩
      · cases he
    · obtain ⟨rfl, rfl⟩ := Prod.mk.inj hset
      exact .inl ⟨rfl, rfl⟩
  · obtain ⟨rfl, rfl⟩ := Prod.mk.inj hset
    exact .inr ⟨rfl, t.euid, rfl, h, .inr rfl⟩

/-- The real id is set back if the call fails. -/
theorem sysSetreuid_cases {ruid euid : Word} (h : t.euid ≠ 0)
    (hcall : sysSetreuid ruid euid t = (r, t')) :
    t' = t ∨ r = .ok ∧ ∃ u e, t' = { t with uid := u, euid := e } ∧ (u = t.uid ∨ u = t.euid) ∧ e ≠ 0 ∧
      (e = t.uid ∨ e = t.euid) := by
  unfold sysSetreuid at hcall
  cases hr : setRuid ruid t with
  | none =>
    rw [hr] at hcall
    exact .inl (Prod.mk.inj hcall).2.symm
  | some v =>
    rw [hr] at hcall
    obtain ⟨u, rfl, hu⟩ := setRuid_cases h hr
    have hset : setEuid t.uid euid { t with uid := u } = (r, t') := hcall
    obtain ⟨-, rfl⟩ | ⟨hok, e, rfl, hne, he⟩ :=
      setEuid_cases (t := { t with uid := u }) h hset
    · exact .inl rfl
    · exact .inr ⟨hok, u, e, rfl, hu, hne, he⟩

/-- What a call can do to the ids of a task without privilege. -/
theorem run_cases (e : Call) (h : t.euid ≠ 0) :
    (e.run t).2 = t ∨ (e.run t).1 = .ok ∧
      ((∃ g, (e.run t).2 = { t with egid := g } ∧ (g = t.gid ∨ g = t.egid ∨ g = t.sgid)) ∨
      ∃ u v, (e.run t).2 = { t with uid := u, euid := v } ∧ (u = t.uid ∨ u = t.euid) ∧ v ≠ 0 ∧
        (v = t.uid ∨ v = t.euid)) := by
  have hregid : ∀ rgid egid, (sysSetregid rgid egid t).2 = t ∨ (sysSetregid rgid egid t).1 = .ok ∧
      ∃ g, (sysSetregid rgid egid t).2 = { t with egid := g } ∧ (g = t.gid ∨ g = t.egid ∨ g = t.sgid) :=
    fun rgid egid => sysSetregid_cases h rfl
  have hreuid : ∀ ruid euid, (sysSetreuid ruid euid t).2 = t ∨ (sysSetreuid ruid euid t).1 = .ok ∧
      ∃ u v, (sysSetreuid ruid euid t).2 = { t with uid := u, euid := v } ∧ (u = t.uid ∨ u = t.euid) ∧
        v ≠ 0 ∧ (v = t.uid ∨ v = t.euid) :=
    fun ruid euid => sysSetreuid_cases h rfl
  cases e with
  | setuid uid => exact (hreuid uid uid).imp_right fun ⟨hok, hset⟩ => ⟨hok, .inr hset⟩
  | setreuid ruid euid => exact (hreuid ruid euid).imp_right fun ⟨hok, hset⟩ => ⟨hok, .inr hset⟩
  | setgid gid => exact (hregid gid gid).imp_right fun ⟨hok, hset⟩ => ⟨hok, .inl hset⟩
  | setregid rgid egid => exact (hregid rgid egid).imp_right fun ⟨hok, hset⟩ => ⟨hok, .inl hset⟩

/-! ## Runs of calls -/

theorem within_step (e : Call) (h : Within t₀ t) : Within t₀ (e.run t).2 := by
  obtain hsame | ⟨-, ⟨g, hset, hg⟩ | ⟨u, v, hset, hu, hv, hv'⟩⟩ := run_cases e h.euid_ne
  · rw [hsame]
    exact h
  · rw [hset]
    have hgid := h.gid
    have hsgid := h.sgid
    have hegid := h.egid
    exact { h with egid := by grind }
  · rw [hset]
    have huid := h.uid
    have heuid := h.euid
    exact { h with uid := by grind, euid := by grind, euid_ne := hv }

/-- CREDENTIALS. Whatever calls a task without privilege makes, its ids stay among those it had, and a call
that returns `-EPERM` changes none. -/
theorem credentials_stay (t₀ t : Ids) (h₀ : t₀.euid ≠ 0)
    (h : Lib.Reach step (fun _ _ => True) (fun t => t = t₀) t) :
    (t.uid = t₀.uid ∨ t.uid = t₀.euid) ∧ (t.euid = t₀.uid ∨ t.euid = t₀.euid) ∧ t.euid ≠ 0 ∧
      t.gid = t₀.gid ∧ t.sgid = t₀.sgid ∧ (t.egid = t₀.gid ∨ t.egid = t₀.egid ∨ t.egid = t₀.sgid) ∧
      ∀ e : Call, (e.run t).1 = .eperm → (e.run t).2 = t := by
  have hwithin : Within t₀ t := by
    refine h.invariant (fun t ht => ?_) (fun t e t' ht _ hstep => ?_)
    · rw [ht]
      exact ⟨.inl rfl, .inr rfl, h₀, rfl, rfl, .inr (.inl rfl)⟩
    · cases hstep
      exact within_step e ht
  refine ⟨hwithin.uid, hwithin.euid, hwithin.euid_ne, hwithin.gid, hwithin.sgid, hwithin.egid, ?_⟩
  intro e hperm
  obtain hsame | ⟨hok, -⟩ := run_cases e hwithin.euid_ne
  · exact hsame
  · rw [hok] at hperm
    cases hperm

/-- A set-user-id program swaps its ids, asks for 0 with 32 bits, and takes over a group. -/
theorem credentials_stay_swapped :
    Lib.run step ⟨5, 7, 7, 3, 4, 4⟩ [.setreuid 7 5, .setuid 0x10000, .setregid 3 3] =
        some ⟨7, 5, 7, 3, 3, 4⟩ ∧ (⟨7, 5, 7, 3, 3, 4⟩ : Ids).euid ≠ 0 := by
  have hrun : Lib.run step ⟨5, 7, 7, 3, 4, 4⟩ [.setreuid 7 5, .setuid 0x10000, .setregid 3 3] =
      some ⟨7, 5, 7, 3, 3, 4⟩ := by decide
  have hstart : Lib.Reach step (fun _ _ => True) (fun t => t = ⟨5, 7, 7, 3, 4, 4⟩) ⟨5, 7, 7, 3, 4, 4⟩ :=
    .start rfl
  have h := credentials_stay ⟨5, 7, 7, 3, 4, 4⟩ ⟨7, 5, 7, 3, 3, 4⟩ (by decide)
    (hstart.ofRun (fun _ _ => trivial) hrun)
  exact ⟨hrun, h.2.2.1⟩

end Linux011.Credentials
