/-
  Zcoin.Elysium.MetaDExShutdown — closing the orders between any two properties
  (`MetaDEx_SHUTDOWN_ALLPAIR`, `elysium/mdex.cpp`).

  When trading between any two properties is deactivated, the orders without a native token
  on either side are to be removed.  The innermost loop advances its iterator only where it
  erases an order.

  MAIN RESULT: `shutdownAllPair_iff`.
-/
import Zcoin.Elysium.MetaDExRuns
import Zcoin.Lib.Loop

namespace Zcoin.Elysium

open Lib Lib.Except List

/-! ## §1. The loops. -/

section Loops

variable {A : Type} [DecidableEq A] (env : TokenEnv A)

/-- No `ELYSIUM`/`TELYSIUM` side to the trade. -/
def CMPMetaDEx.allPair (order : CMPMetaDEx A) : Bool :=
  order.desProperty > ELYSIUM_PROPERTY_TELYSIUM && order.property > ELYSIUM_PROPERTY_TELYSIUM

/-- From the reserve to the balance. -/
def refundOrder (tally : TallyMap A) (order : CMPMetaDEx A) : Except Abort (TallyMap A) := do
  let tally ← assertUpdate env.frozen tally order.addr order.property
    (-order.amountRemaining) .metadexReserve
  assertUpdate env.frozen tally order.addr order.property order.amountRemaining .balance

/-- A round of the loop over the orders at one price, from the one the iterator stands on: there
is no `++it` for an order that stays. -/
def shutdownRound :
    TallyMap A × MdSet A → (TallyMap A × MdSet A) ⊕ Except Abort (TallyMap A × MdSet A)
  | (tally, []) => .inr (.ok (tally, []))
  | (tally, order :: orders) =>
    if order.allPair then
      match refundOrder env tally order with
      | .error e => .inr (.error e)
      | .ok tally => .inl (tally, orders)
    else .inl (tally, order :: orders)

/-- The loop.  `none`: it does not end. -/
def shutdownSet (tally : TallyMap A) (indexes : MdSet A) :
    Option (Except Abort (TallyMap A × MdSet A)) :=
  Loop.run ⟨fun s => some (shutdownRound env s)⟩ (tally, indexes)

/-- The loop over the entries of a map. -/
def shutdownEntries {K V : Type} (step : TallyMap A → V → ExceptT Abort Option (TallyMap A × V))
    (tally : TallyMap A) : List (K × V) → ExceptT Abort Option (TallyMap A × List (K × V))
  | [] => return (tally, [])
  | (k, v) :: entries => do
    let (tally, v) ← step tally v
    let (tally, entries) ← shutdownEntries step tally entries
    return (tally, (k, v) :: entries)

/-- `MetaDEx_SHUTDOWN_ALLPAIR`. -/
def metaDExShutdownAllPair (market : Market A) : ExceptT Abort Option (Int × Market A) := do
  let (tally, metadex) ← shutdownEntries (shutdownEntries (shutdownSet env)) market.tally
    market.metadex
  return (0, { market with tally, metadex })

end Loops

/-! ## §2. What the loops end on. -/

section Ends

variable {A : Type} [DecidableEq A] {env : TokenEnv A}

theorem bind_eq_some_ok {ε α β : Type} {x : ExceptT ε Option α} {f : α → ExceptT ε Option β}
    {b : β} : (x >>= f) = some (.ok b) ↔ ∃ a, x = some (.ok a) ∧ f a = some (.ok b) := by
  cases x with
  | none => exact ⟨fun h => (nomatch h), fun ⟨_, h, _⟩ => (nomatch h)⟩
  | some r =>
    cases r with
    | error e => exact ⟨fun h => (nomatch h), fun ⟨_, h, _⟩ => (nomatch h)⟩
    | ok a => exact ⟨fun h => ⟨a, rfl, h⟩, fun ⟨_, h, hf⟩ => by cases h; exact hf⟩

/-- **The loop does not get past an order that stays.** -/
theorem shutdownSet_ends {tally : TallyMap A} {indexes : MdSet A}
    {r : Except Abort (TallyMap A × MdSet A)} (h : shutdownSet env tally indexes = some r) :
    (∀ o ∈ indexes.head?, o.allPair = true) ∧
      ∀ left, r = .ok left → ∀ o ∈ indexes, o.allPair = true := by
  refine Loop.run_spec (fun s r => (∀ o ∈ s.2.head?, o.allPair = true) ∧
    ∀ left, r = .ok left → ∀ o ∈ s.2, o.allPair = true) (fun s r hr => ?_) h
  cases hr
  obtain ⟨tally, indexes⟩ := s
  cases indexes with
  | nil => exact ⟨by simp, by simp⟩
  | cons order orders =>
    simp only [shutdownRound]
    split
    · next hpair =>
      have hhead : ∀ o ∈ (order :: orders).head?, o.allPair = true := by simpa using hpair
      split
      · exact ⟨hhead, fun left hleft => nomatch hleft⟩
      · exact fun r h => ⟨hhead, fun left hleft => forall_mem_cons.mpr ⟨hpair, h.2 left hleft⟩⟩
    · -- the iterator stays where it is
      exact fun r h => h

omit [DecidableEq A] in
theorem shutdownEntries_ends {K V : Type} {P : V → Prop}
    {step : TallyMap A → V → ExceptT Abort Option (TallyMap A × V)}
    (hstep : ∀ {tally v left}, step tally v = some (.ok left) → P v)
    {entries : List (K × V)} {tally : TallyMap A} {left : TallyMap A × List (K × V)}
    (h : shutdownEntries step tally entries = some (.ok left)) : ∀ e ∈ entries, P e.2 := by
  induction entries generalizing tally left with
  | nil => simp
  | cons e entries ih =>
    obtain ⟨_, hfirst, h⟩ := bind_eq_some_ok.mp h
    obtain ⟨_, hrest, -⟩ := bind_eq_some_ok.mp h
    exact forall_mem_cons.mpr ⟨hstep hfirst, ih hrest⟩

end Ends

/-! ## §3. What is given back. -/

section Refunds

variable {A : Type} [LinearOrder A] {issue : Issue} {fees : FeeCache}

/-- What the removal of orders adds to an amount. -/
def refunded (orders : MdSet A) (a : A) : PropertyId × TallyType → Int
  | (p, .balance) => offered orders a p
  | (p, .metadexReserve) => -offered orders a p
  | _ => 0

theorem refunded_append (l r : MdSet A) (a : A) (k : PropertyId × TallyType) :
    refunded (l ++ r) a k = refunded l a k + refunded r a k := by
  obtain ⟨p, t⟩ := k
  cases t <;> simp only [refunded, offered_append, add_zero]
  omega

theorem refunds_nil {base : A → PropertyId → Int} {tally : TallyMap A}
    (h : Balanced issue (fun a p => base a p + offered [] a p) tally fees) :
    Balanced issue base tally fees ∧
      ∀ a k, tally.amount a k = tally.amount a k + refunded [] a k := by
  refine ⟨h.congr fun a p => (add_zero (base a p)).symm, ?_⟩
  rintro a ⟨p, t⟩
  cases t <;> exact (add_zero _).symm

theorem amount_shifted (tally : TallyMap A) (order : CMPMetaDEx A) (a : A)
    (k : PropertyId × TallyType) :
    (shifted tally order.addr order.property order.amountRemaining .metadexReserve
      .balance).amount a k = tally.amount a k + refunded [order] a k := by
  obtain ⟨p, t⟩ := k
  rw [show shifted tally _ _ _ _ _ = conveyed tally _ _ _ _ _ _ from rfl, amount_conveyed]
  cases t <;> simp [refunded, offered, offers, eq_comm, Int.sub_eq_add_neg]

/-- What a loop does over orders that are all to be removed: it ends, it leaves none of them, and
gives back what they offered. -/
def Refunds (issue : Issue) (fees : FeeCache) {V : Type} (orders : V → MdSet A)
    (loop : TallyMap A → V → ExceptT Abort Option (TallyMap A × V)) : Prop :=
  ∀ (base : A → PropertyId → Int) (tally : TallyMap A) (v : V), (∀ a p, 0 ≤ base a p) →
    (∀ o ∈ orders v, o.Valid ∧ o.allPair = true) →
    Balanced issue (fun a p => base a p + offered (orders v) a p) tally fees →
    ∃ tally' v', loop tally v = some (.ok (tally', v')) ∧ orders v' = [] ∧
      Balanced issue base tally' fees ∧
      ∀ a k, tally'.amount a k = tally.amount a k + refunded (orders v) a k

theorem shutdownSet_refunds (env : TokenEnv A) :
    Refunds issue fees (fun orders => orders) (shutdownSet env) := by
  intro base tally orders hbase hgood h
  beta_reduce at hgood h ⊢
  induction orders generalizing tally with
  | nil => exact ⟨tally, [], Loop.run_eq _ _, rfl, refunds_nil h⟩
  | cons order orders ih =>
    obtain ⟨⟨hvalid, hpair⟩, hrest⟩ := forall_mem_cons.mp hgood
    have hbase' := add_offered_nonneg hbase fun o ho => (hrest o ho).1
    obtain ⟨tally₁, htake, hput, h'⟩ :=
      @closeOrder_spec A _ env issue fees _ hbase' tally order hvalid
        (by apply h.congr; intro a p; rw [offered_cons]; omega)
    obtain ⟨tally', left, hrun, hleft, hbalanced, hamount⟩ := ih _ hrest h'
    refine ⟨tally', left, ?_, hleft, hbalanced, ?_⟩
    · rw [shutdownSet, Loop.run_eq]
      simp only [shutdownRound, hpair, if_true, refundOrder, htake, ok_bind, hput]
      exact hrun
    · intro a k
      rw [hamount, amount_shifted, add_assoc, ← refunded_append]
      rfl

theorem Refunds.entries {K V : Type} {orders : V → MdSet A}
    {step : TallyMap A → V → ExceptT Abort Option (TallyMap A × V)}
    (hstep : Refunds issue fees orders step) :
    Refunds issue fees (fun entries : List (K × V) => entries.flatMap fun e => orders e.2)
      (shutdownEntries step) := by
  intro base tally entries hbase hgood h
  beta_reduce at hgood h ⊢
  induction entries generalizing tally with
  | nil => exact ⟨tally, [], rfl, rfl, refunds_nil h⟩
  | cons e entries ih =>
    obtain ⟨k, v⟩ := e
    obtain ⟨hhead, hrest⟩ := forall_mem_append.mp hgood
    have hbase' := add_offered_nonneg hbase fun o ho => (hrest o ho).1
    obtain ⟨tally₁, v', hrun, hnone, h₁, hamount⟩ := hstep _ tally v hbase' hhead
      ((balanced_append_iff (l := orders v)).mp h).swap
    obtain ⟨tally', entries', hrun', hnone', h', hamount'⟩ := ih _ hrest h₁
    refine ⟨tally', (k, v') :: entries', ?_, ?_, h', ?_⟩
    · exact bind_eq_some_ok.mpr ⟨_, hrun, bind_eq_some_ok.mpr ⟨_, hrun', rfl⟩⟩
    · rw [flatMap_cons, hnone, hnone']
      rfl
    · intro a k
      rw [hamount', hamount, add_assoc, ← refunded_append]
      rfl

end Refunds

/-! ## §4. The shutdown. -/

variable {A : Type} [LinearOrder A]

/-- **What the shutdown is for**: it ends, removes exactly the orders between any two properties,
gives back what they offered, and leaves everything else. -/
def ShutsDown (env : TokenEnv A) (market : Market A) : Prop :=
  ∃ market', metaDExShutdownAllPair env market = some (.ok (0, market')) ∧
    openOrders market'.metadex = (openOrders market.metadex).filter (fun o => !o.allPair) ∧
    (∀ a k, market'.tally.amount a k = market.tally.amount a k +
      refunded ((openOrders market.metadex).filter CMPMetaDEx.allPair) a k) ∧
    market'.fees = market.fees ∧ market'.trades = market.trades

/-- **The shutdown of a market in order** does this exactly if no order has a native token on one
of its sides. -/
theorem shutdownAllPair_iff (env : TokenEnv A) {issue : Issue} {market : Market A}
    (h : InOrder issue market) :
    ShutsDown env market ↔ ∀ o ∈ openOrders market.metadex, o.allPair = true := by
  constructor
  · rintro ⟨market', hrun, -⟩
    obtain ⟨left, hloop, -⟩ := bind_eq_some_ok.mp hrun
    have hends := shutdownEntries_ends
      (shutdownEntries_ends fun hset => (shutdownSet_ends hset).2 _ rfl) hloop
    intro o ho
    obtain ⟨prices, hprices, ho⟩ := mem_flatMap.mp ho
    obtain ⟨level, hlevel, ho⟩ := mem_flatMap.mp ho
    exact hends prices hprices level hlevel o ho
  · intro hpair
    obtain ⟨tally', metadex', hrun, hnone, -, hamount⟩ :=
      (shutdownSet_refunds env).entries.entries (fun _ _ => 0) market.tally market.metadex
        (fun _ _ => le_rfl) (fun o ho => ⟨h.filed.valid o ho, hpair o ho⟩)
        (h.balanced.congr fun a p => zero_add _)
    refine ⟨{ market with tally := tally', metadex := metadex' },
      bind_eq_some_ok.mpr ⟨_, hrun, rfl⟩, ?_, ?_, rfl, rfl⟩
    · rw [filter_eq_nil_iff.mpr (by simpa using hpair)]
      exact hnone
    · rw [filter_eq_self.mpr hpair]
      exact hamount

/-- Orders between properties 3 and 4, at two prices and the other way round. -/
def sampleOrders : List (MarketStep Nat) :=
  [.add 1 3 50000 100 4 100000 7 0, .add 1 3 20000 101 4 90000 8 0, .add 2 4 1000 102 3 1000 9 0]

theorem shutdownAllPair_both_sides :
    ∃ market, runMarket sampleEnv sampleMarket sampleOrders = .ok market ∧
      (openOrders market.metadex).length = 3 ∧ ShutsDown sampleEnv market := by
  obtain ⟨market, hrun, hinOrder⟩ := runMarket_spec sampleMarket_start.inOrder
    (show AdmissibleRun sampleEnv sampleMarket sampleOrders by decide +kernel)
  have horders : (runMarket sampleEnv sampleMarket sampleOrders).map
      (fun market => (openOrders market.metadex).map CMPMetaDEx.allPair) =
        .ok (List.replicate 3 true) := by
    decide +kernel
  rw [hrun] at horders
  have hpair : (openOrders market.metadex).map CMPMetaDEx.allPair = _ := Except.ok.inj horders
  refine ⟨market, hrun, by simpa using congrArg length hpair,
    (shutdownAllPair_iff sampleEnv hinOrder).mpr fun o ho => ?_⟩
  have hmem : o.allPair ∈ (openOrders market.metadex).map CMPMetaDEx.allPair := mem_map_of_mem ho
  rw [hpair] at hmem
  exact eq_of_mem_replicate hmem

/-- **An order that sells a native token**: the shutdown does not end. -/
theorem shutdownAllPair_hangs :
    ∃ market, runMarket sampleEnv sampleMarket [.add 1 1 5 100 3 10 7 0] = .ok market ∧
      metaDExShutdownAllPair sampleEnv market = none := by
  have hbook : (runMarket sampleEnv sampleMarket [.add 1 1 5 100 3 10 7 0]).map (fun market =>
      market.metadex.map (·.2.map (·.2.map CMPMetaDEx.allPair))) = .ok [[[false]]] := by
    decide +kernel
  cases hrun : runMarket sampleEnv sampleMarket [.add 1 1 5 100 3 10 7 0] with
  | error e =>
    rw [hrun] at hbook
    cases hbook
  | ok market =>
    rw [hrun] at hbook
    refine ⟨market, rfl, ?_⟩
    obtain ⟨tally, fees, metadex, trades⟩ := market
    obtain ⟨⟨property, levels⟩, rfl, hlevels⟩ := map_eq_singleton_iff.mp (Except.ok.inj hbook)
    obtain ⟨⟨price, orders⟩, rfl, horders⟩ := map_eq_singleton_iff.mp hlevels
    obtain ⟨order, rfl, hstays⟩ := map_eq_singleton_iff.mp horders
    have hset : shutdownSet sampleEnv tally [order] = none := by
      rw [Option.eq_none_iff_forall_ne_some]
      intro r hr
      have hpair := (shutdownSet_ends hr).1 order rfl
      rw [hstays] at hpair
      cases hpair
    have hlevel : shutdownEntries (shutdownSet sampleEnv) tally [(price, [order])] = none := by
      unfold shutdownEntries
      rw [hset]
      rfl
    unfold metaDExShutdownAllPair shutdownEntries
    rw [hlevel]
    rfl

end Zcoin.Elysium
