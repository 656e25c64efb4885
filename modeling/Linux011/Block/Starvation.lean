import Linux011.Block.Elevator

/-!
# No request starves (`kernel/blk_drv/ll_rw_blk.c`, `kernel/blk_drv/blk.h`)

`add_request` lets a new request go ahead of one that waits. Requests that come all the time could so
keep one of them waiting for ever; the order of `IN_ORDER` sees to it that they do not. From the time
a request is queued to the time it is served, the requests that are served make at most two sweeps up
to it: the rest of the sweep that is under way, and the next one. A key is served twice at most
meanwhile, and how long a request waits is bounded by the number of keys, whatever the other tasks do.
-/

namespace Linux011.Block

variable {β κ : Type*} {s s' u : State β κ} {r q : Slot} {F : Request β κ} {d : Nat}

/-! ## The order of the keys -/

/-- `IN_ORDER`, of the keys. -/
def keyOrder (a b : Rw × Int × Nat) : Bool :=
  a.1.val < b.1.val ∨ a.1 = b.1 ∧ (a.2.1 < b.2.1 ∨ a.2.1 = b.2.1 ∧ a.2.2 < b.2.2)

theorem keyOrder_iff (a b : Rw × Int × Nat) : keyOrder a b = true ↔ a.1.val < b.1.val ∨
    a.1.val = b.1.val ∧ (a.2.1 < b.2.1 ∨ a.2.1 = b.2.1 ∧ a.2.2 < b.2.2) := by
  unfold keyOrder
  rw [decide_eq_true_iff]
  exact or_congr_right (and_congr_left fun _ => ⟨congrArg Rw.val, val_inj⟩)

theorem keyOrder_strict : Lib.Strict keyOrder where
  trans {x y z} hxy hyz := by
    rw [keyOrder_iff] at *
    omega
  asymm {x y} hxy := by
    rw [← Bool.not_eq_true]
    rw [keyOrder_iff] at *
    omega

theorem slotOrder_eq (request : Slot → Request β κ) (x y : Slot) :
    slotOrder request x y = keyOrder (request x).key (request y).key := rfl

/-! ## A request that waits -/

variable [DecidableEq β]

/-- A turn while the request of slot `r` is in the queue of device `d` and is not ended. The keys of
the requests that `d` ends are noted, in their order. -/
def waitTurn (d : Nat) (r : Slot) (a : List (Rw × Int × Nat) × State β κ) :
    Turn β κ → Option (List (Rw × Int × Nat) × State β κ)
  | .add major q F => (turn a.2 (.add major q F)).map fun s => (a.1, s)
  | .remove major uptodate =>
    if major ≠ d then (turn a.2 (.remove major uptodate)).map fun s => (a.1, s)
    else
      (a.2.current d).bind fun q =>
        if q = r then none
        else (turn a.2 (.remove d uptodate)).map fun s => (a.1 ++ [(a.2.request q).key], s)

/-- What was served while the request of `r` waits from `s` to `u`. -/
def Waits (d : Nat) (r : Slot) (s : State β κ) (served : List (Rw × Int × Nat)) (u : State β κ) :
    Prop :=
  Lib.Reach (waitTurn d r) (fun a => Distinct a.2) (fun a => a = ([], s)) (served, u)

/-- What is ahead of the request, behind what was served, is two runs. -/
structure Ahead (d : Nat) (r : Slot) (served : List (Rw × Int × Nat)) (s : State β κ)
    (queue : Nat → List Slot) : Prop where
  swept : Swept s queue
  ahead : ∃ pre post, queue d = pre ++ r :: post ∧
    Lib.TwoRuns keyOrder (served ++ (pre ++ [r]).map fun q => (s.request q).key)

omit [DecidableEq β] in
theorem Ahead.mem {served : List (Rw × Int × Nat)} {queue : Nat → List Slot}
    (A : Ahead d r served s queue) : r ∈ queue d := by
  obtain ⟨pre, post, hqueue, -⟩ := A.ahead
  rw [hqueue]
  exact List.mem_append_right pre List.mem_cons_self

omit [DecidableEq β] in
theorem Swept.ahead {queue : Nat → List Slot} (W : Swept s queue) (hr : r ∈ queue d) :
    Ahead d r [] s queue := by
  refine ⟨W, ?_⟩
  obtain ⟨pre, post, hqueue⟩ := List.append_of_mem hr
  refine ⟨pre, post, hqueue, ?_⟩
  have hruns := W.runs d
  rw [hqueue, List.append_cons] at hruns
  exact (hruns.sublist (List.sublist_append_left _ _)).map (slotOrder_eq s.request)

theorem Ahead.add {served : List (Rw × Int × Nat)} {queue : Nat → List Slot}
    (A : Ahead d r served s queue) (major : Nat) (hdistinct : Distinct s (.add major q F))
    (h : turn s (.add major q F) = some s') :
    (∃ queue', Ahead d r served s' queue') ∧ (s'.request r).key = (s.request r).key := by
  have hok : (s.request q).dev < 0 ∧ 0 ≤ F.dev := by
    by_contra hno
    rw [show turn s (.add major q F) = none from if_neg hno] at h
    cases h
  obtain ⟨v, hv, W', -, hself, hother⟩ := A.swept.add major hok.1 hok.2 hdistinct
  cases hv.symm.trans h
  have hne : ∀ p ∈ queue d, p ≠ q := fun p hp he => A.swept.not_mem hok.1 d (he ▸ hp)
  refine ⟨⟨_, W', ?_⟩, hother r (hne r A.mem)⟩
  obtain ⟨pre, post, hqueue, hruns⟩ := A.ahead
  have hkeys : ∀ p ∈ pre ++ [r], (s.request p).key = (s'.request p).key := fun p hp => by
    refine (hother p (hne p ?_)).symm
    rw [hqueue, List.append_cons]
    exact List.mem_append_left post hp
  rw [List.map_congr_left hkeys] at hruns
  unfold grown
  by_cases hd : d = major
  · subst hd
    rw [Function.update_self, hqueue]
    refine keyOrder_strict.sweep_waiting (fun x y => ?_) hruns
    have hkey : ∀ p, (Function.update s.request q { F with next := none } p).key =
        (s'.request p).key := fun p => by
      by_cases hp : p = q
      · rw [hp, Function.update_self, hself]
        rfl
      · rw [Function.update_of_ne hp, hother p hp]
    rw [slotOrder_eq, hkey x, hkey y]
  · rw [Function.update_of_ne hd]
    exact ⟨pre, post, hqueue, hruns⟩

/-- To end a request changes its own slot only. -/
theorem turn_remove_key {major : Nat} {uptodate : Bool} (hcur : s.current major = some q)
    (h : turn s (.remove major uptodate) = some s') {p : Slot} (hp : p ≠ q) :
    (s'.request p).key = (s.request p).key := by
  have h : endRequest major uptodate s = some s' := h
  unfold endRequest at h
  rw [hcur, Option.map_some] at h
  cases h
  dsimp only
  rw [Function.update_of_ne hp]
  split
  · rfl
  · rfl

theorem Ahead.other {served : List (Rw × Int × Nat)} {queue : Nat → List Slot} {major : Nat}
    {uptodate : Bool} (A : Ahead d r served s queue) (hd : major ≠ d)
    (h : turn s (.remove major uptodate) = some s') :
    (∃ queue', Ahead d r served s' queue') ∧ (s'.request r).key = (s.request r).key := by
  obtain ⟨q, hcur, -⟩ := Option.map_eq_some_iff.mp h
  obtain ⟨v, l, hv, hl, W'⟩ := A.swept.remove major uptodate hcur
  cases hv.symm.trans h
  have hq : q ∈ queue major := hl ▸ List.mem_cons_self
  have hne : ∀ p ∈ queue d, p ≠ q := fun p hp he =>
    hd (A.swept.queued.apart major d q hq (he ▸ hp))
  refine ⟨⟨_, W', ?_⟩, turn_remove_key hcur h (hne r A.mem)⟩
  obtain ⟨pre, post, hqueue, hruns⟩ := A.ahead
  refine ⟨pre, post, by rw [Function.update_of_ne hd.symm, hqueue], ?_⟩
  have hkeys : ∀ p ∈ pre ++ [r], (s.request p).key = (s'.request p).key := fun p hp => by
    refine (turn_remove_key hcur h (hne p ?_)).symm
    rw [hqueue, List.append_cons]
    exact List.mem_append_left post hp
  rw [List.map_congr_left hkeys] at hruns
  exact hruns

theorem Ahead.serve {served : List (Rw × Int × Nat)} {queue : Nat → List Slot} {uptodate : Bool}
    (A : Ahead d r served s queue) (hcur : s.current d = some q) (hqr : q ≠ r)
    (h : turn s (.remove d uptodate) = some s') :
    (∃ queue', Ahead d r (served ++ [(s.request q).key]) s' queue') ∧
      (s'.request r).key = (s.request r).key := by
  obtain ⟨v, l, hv, hl, W'⟩ := A.swept.remove d uptodate hcur
  cases hv.symm.trans h
  refine ⟨⟨_, W', ?_⟩, turn_remove_key hcur h hqr.symm⟩
  obtain ⟨pre, post, hqueue, hruns⟩ := A.ahead
  -- the first request is the one that is ended
  rw [hl] at hqueue
  cases pre with
  | nil =>
    obtain ⟨rfl, -⟩ := List.cons.inj hqueue
    exact absurd rfl hqr
  | cons p pre =>
    obtain ⟨rfl, rfl⟩ := List.cons.inj hqueue
    have hnodup := (A.swept.queued.chain d).nodup
    rw [hl] at hnodup
    have hkeys : ∀ p ∈ pre ++ [r], (s.request p).key = (s'.request p).key := fun p hp => by
      refine (turn_remove_key hcur h fun he => (List.nodup_cons.mp hnodup).1 ?_).symm
      have hp : p ∈ (pre ++ [r]) ++ post := List.mem_append_left post hp
      rw [← List.append_cons] at hp
      exact he ▸ hp
    refine ⟨pre, post, Function.update_self .., ?_⟩
    rw [List.append_assoc, ← List.map_congr_left hkeys]
    exact hruns

/-- One turn. -/
theorem Ahead.turn {a a' : List (Rw × Int × Nat) × State β κ} {queue : Nat → List Slot} {e : Turn β κ}
    (A : Ahead d r a.1 a.2 queue) (hdistinct : Distinct a.2 e) (h : waitTurn d r a e = some a') :
    (∃ queue', Ahead d r a'.1 a'.2 queue') ∧ (a'.2.request r).key = (a.2.request r).key := by
  cases e with
  | add major q F =>
    obtain ⟨s', hs', rfl⟩ := Option.map_eq_some_iff.mp h
    exact A.add major hdistinct hs'
  | remove major uptodate =>
    rw [waitTurn] at h
    by_cases hd : major = d
    · rw [if_neg (not_not.mpr hd)] at h
      obtain ⟨q, hcur, h⟩ := Option.bind_eq_some_iff.mp h
      by_cases hqr : q = r
      · rw [if_pos hqr] at h
        cases h
      · rw [if_neg hqr] at h
        obtain ⟨s', hs', rfl⟩ := Option.map_eq_some_iff.mp h
        exact A.serve hcur hqr hs'
    · rw [if_pos hd] at h
      obtain ⟨s', hs', rfl⟩ := Option.map_eq_some_iff.mp h
      exact A.other hd hs'

theorem Waits.ahead {served : List (Rw × Int × Nat)} {queue : Nat → List Slot}
    (w : Waits d r s served u) (W : Swept s queue) (hr : r ∈ queue d) :
    (∃ queue', Ahead d r served u queue') ∧ (u.request r).key = (s.request r).key := by
  refine Lib.Reach.invariant (I := fun a => (∃ queue', Ahead d r a.1 a.2 queue') ∧
    (a.2.request r).key = (s.request r).key) ?_ ?_ w
  · rintro a rfl
    exact ⟨⟨queue, W.ahead hr⟩, rfl⟩
  · rintro a e a' ⟨⟨queue', A⟩, hkey⟩ hdistinct h
    obtain ⟨hnext, hsame⟩ := A.turn hdistinct h
    exact ⟨hnext, hsame.trans hkey⟩

/-- NO STARVATION. While a request waits, however many others come, its device serves two sweeps at
most up to it, each in the order of the keys. So among any set of keys that has those served and its
own, each is served twice at most, and the number of requests that go ahead is bounded. -/
theorem request_waits (h : Lib.Reach turn Distinct Start s) {l : List Slot}
    (hl : Lib.Chain (fun r => (s.request r).next) (s.current d) l) (hr : r ∈ l)
    {served : List (Rw × Int × Nat)} (w : Waits d r s served u) :
    Lib.TwoRuns keyOrder (served ++ [(s.request r).key]) ∧
    ∀ keys : Finset (Rw × Int × Nat), (s.request r).key ∈ keys → (∀ k ∈ served, k ∈ keys) →
      served.length < 2 * keys.card := by
  obtain ⟨queue, W⟩ := swept h
  rw [← (W.queued.chain d).unique hl] at hr
  obtain ⟨⟨queue', A⟩, hkey⟩ := w.ahead W hr
  obtain ⟨pre, post, -, hruns⟩ := A.ahead
  have hserved : Lib.TwoRuns keyOrder (served ++ [(s.request r).key]) := by
    refine hruns.sublist (List.Sublist.append (List.Sublist.refl served) ?_)
    rw [List.map_append, List.map_cons, List.map_nil, hkey]
    exact List.sublist_append_right _ _
  refine ⟨hserved, fun keys hown hkeys => ?_⟩
  have hlength := keyOrder_strict.twoRuns_length hserved fun k hk => by
    rcases List.mem_append.mp hk with hk | hk
    · exact hkeys k hk
    · rw [List.mem_singleton.mp hk]
      exact hown
  rw [List.length_append, List.length_singleton] at hlength
  exact hlength

/-- The request for sector 30 waits. The one for 25 goes ahead of it, the one for 10 does not. -/
theorem request_waits_behind : ∃ s u : State (Fin 3) Bool,
    Lib.Chain (fun r => (s.request r).next) (s.current 3) [0, 1] ∧
    Waits 3 1 s [(.read, 0x301, 20), (.read, 0x301, 25)] u ∧
    Lib.TwoRuns keyOrder ([(.read, 0x301, 20), (.read, 0x301, 25)] ++ [(s.request 1).key]) := by
  obtain ⟨s, hs, hcur, h0, h1, u, hu⟩ : ∃ s, Lib.run (fun s e => (turn s e).filter (distinctCheck s e))
      fresh [.add 3 0 (readSector 20), .add 3 1 (readSector 30)] = some s ∧
      s.current 3 = some 0 ∧ (s.request 0).next = some 1 ∧ (s.request 1).next = none ∧
      ∃ u, Lib.run (fun a e => (waitTurn 3 1 a e).filter fun a' => distinctCheck a.2 e a'.2) ([], s)
        [.add 3 2 (readSector 25), .remove 3 true, .add 3 3 (readSector 10), .remove 3 false] =
          some ([(.read, 0x301, 20), (.read, 0x301, 25)], u) :=
    ⟨_, rfl, by decide +kernel, by decide +kernel, by decide +kernel, _, rfl⟩
  have hchain : Lib.Chain (fun r => (s.request r).next) (s.current 3) [0, 1] := by
    rw [hcur]
    refine .cons ?_
    rw [h0]
    refine .cons ?_
    rw [h1]
    exact .nil
  have hwaits : Waits 3 1 s [(.read, 0x301, 20), (.read, 0x301, 25)] u := by
    refine .ofChecked (fun a e a' h hcheck => ?_) (.start rfl) hu
    cases e with
    | add major r F => exact fun l _ q _ => of_decide_eq_true hcheck q
    | remove major uptodate => trivial
  exact ⟨s, u, hchain, hwaits,
    (request_waits (.ofChecked distinct_of_check (.start fresh_start) hs) hchain
      (List.mem_cons_of_mem 0 List.mem_cons_self) hwaits).1⟩

end Linux011.Block
