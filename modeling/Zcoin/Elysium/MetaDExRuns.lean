/-
  Zcoin.Elysium.MetaDExRuns — runs of the exchange.

  Each entry point keeps the market in order: the books are balanced, every order stands under
  its property and price, and every fill was fair.  From that, by induction, any run does.
-/
import Zcoin.Elysium.MetaDExSpec

namespace Zcoin.Elysium

open Lib Lib.Except List Option

open Assoc

/-! ## §1. The market in order. -/

section Orders

variable {A : Type}

/-- All open orders. -/
def openOrders (metadex : MdPropertiesMap A) : MdSet A := metadex.flatMap fun e => ordersAt e.2

/-- All orders stand under their property and price. -/
def Filed (metadex : MdPropertiesMap A) : Prop := ∀ e ∈ metadex, FiledPrices e.1 e.2

variable {metadex : MdPropertiesMap A}

theorem Filed.valid (h : Filed metadex) : ∀ o ∈ openOrders metadex, o.Valid := by
  intro o ho
  obtain ⟨e, he, ho⟩ := mem_flatMap.mp ho
  exact (h e he).valid o ho

variable {prices : MdPricesMap A} {p : PropertyId}

theorem Filed.upsert (h : Filed metadex) (hprices : FiledPrices p prices) :
    Filed (upsert p prices metadex) :=
  forall_upsert h hprices

theorem FiledPrices.upsert (h : FiledPrices p prices) {price : ℚ} {offers : MdSet A}
    (hoffers : ∀ o ∈ offers, FiledAt p price o) : FiledPrices p (upsert price offers prices) :=
  forall_upsert (P := fun price orders => ∀ o ∈ orders, FiledAt p price o) h hoffers

variable {o : CMPMetaDEx A}

theorem mem_openOrders_upsert (h : o ∈ openOrders (upsert p prices metadex)) :
    o ∈ ordersAt prices ∨ o ∈ openOrders metadex := by
  obtain ⟨e, he, ho⟩ := mem_flatMap.mp h
  rcases mem_upsert he with rfl | he
  · exact .inl ho
  · exact .inr (mem_flatMap.mpr ⟨e, he, ho⟩)

/-- Two orders at one place. -/
def CMPMetaDEx.SamePlace (order other : CMPMetaDEx A) : Prop :=
  order.block = other.block ∧ order.idx = other.idx

theorem samePlace_of_not_before {order other : CMPMetaDEx A} (h : ¬ order.before other = true)
    (h' : ¬ other.before order = true) : order.SamePlace other := by
  unfold CMPMetaDEx.before at h h'
  by_cases hblock : order.block = other.block
  · rw [if_pos hblock, decide_eq_true_iff] at h
    rw [if_pos hblock.symm, decide_eq_true_iff] at h'
    exact ⟨hblock, by omega⟩
  · rw [if_neg hblock, decide_eq_true_iff] at h
    rw [if_neg (Ne.symm hblock), decide_eq_true_iff] at h'
    omega

/-- **An order at a place of its own is inserted.** -/
theorem insertOrder_spec {order : CMPMetaDEx A} {orders : MdSet A}
    (hfresh : ∀ o ∈ orders, ¬ order.SamePlace o) :
    ∃ orders', insertOrder order orders = some orders' ∧ orders'.Perm (order :: orders) := by
  induction orders with
  | nil => exact ⟨[order], rfl, List.Perm.refl _⟩
  | cons other orders ih =>
    unfold insertOrder
    split
    · exact ⟨order :: other :: orders, rfl, List.Perm.refl _⟩
    · next hnot =>
      split
      · obtain ⟨orders', hrun, hperm⟩ :=
          ih fun o ho => hfresh o (mem_cons_of_mem other ho)
        rw [hrun]
        exact ⟨other :: orders', rfl, (hperm.cons other).trans (List.Perm.swap order other orders)⟩
      · next hnot' =>
        exact absurd (samePlace_of_not_before hnot hnot') (hfresh other mem_cons_self)

variable [DecidableEq A]

theorem offered_flatMap {E : Type} (l : List E) (f : E → MdSet A) (a : A) (p : PropertyId) :
    offered (l.flatMap f) a p = (l.map fun e => offered (f e) a p).sum := by
  unfold offered
  rw [map_flatMap, flatMap_def, sum_flatten, List.map_map]
  rfl

/-- **Replacing the orders under a key** changes what is offered by the difference. -/
theorem offered_upsert {K V : Type} [LinearOrder K] (f : V → MdSet A) (k : K) (v default : V)
    (hdefault : f default = []) (l : List (K × V)) (a : A) (p : PropertyId) :
    offered ((upsert k v l).flatMap fun e => f e.2) a p +
        offered (f ((find k l).getD default)) a p =
      offered (l.flatMap fun e => f e.2) a p + offered (f v) a p := by
  have hsum := sum_upsert (fun e : K × V => offered (f e.2) a p) k v l
  have hfound : ((find k l).map fun v' => offered (f v') a p).getD 0 =
      offered (f ((find k l).getD default)) a p := by
    cases find k l with
    | none =>
      show 0 = offered (f default) a p
      rw [hdefault]
      rfl
    | some v' => rfl
  rw [offered_flatMap, offered_flatMap, ← hfound]
  exact hsum

theorem offered_upsert_property (metadex : MdPropertiesMap A) (q : PropertyId)
    (prices : MdPricesMap A) (a : A) (p : PropertyId) :
    offered (openOrders (upsert q prices metadex)) a p +
        offered (ordersAt ((find q metadex).getD [])) a p =
      offered (openOrders metadex) a p + offered (ordersAt prices) a p :=
  offered_upsert ordersAt q prices [] rfl metadex a p

theorem offered_upsert_price (prices : MdPricesMap A) (price : ℚ) (offers : MdSet A) (a : A)
    (p : PropertyId) :
    offered (ordersAt (upsert price offers prices)) a p +
        offered ((find price prices).getD []) a p =
      offered (ordersAt prices) a p + offered offers a p :=
  offered_upsert (fun offers : MdSet A => offers) price offers [] rfl prices a p

/-- **The market in order.** -/
structure InOrder (issue : Issue) (market : Market A) : Prop where
  balanced : Balanced issue (offered (openOrders market.metadex)) market.tally market.fees
  filed : Filed market.metadex
  fair : ∀ trade ∈ market.trades, trade.Fair

end Orders

/-! ## §2. Moving tokens between the balance and the reserve. -/

section Shifts

variable {A : Type} [DecidableEq A] {frozen : A → PropertyId → Bool} {tally : TallyMap A} {who : A}
  {p : PropertyId} {r : Int} {source target : TallyType}

/-- The tally after tokens moved from one type to another. -/
def shifted (tally : TallyMap A) (who : A) (p : PropertyId) (r : Int) (source target : TallyType) :
    TallyMap A :=
  (tally.add who (p, source) (-r)).add who (p, target) r

theorem Balanced.shifted {issue : Issue} {off off' : A → PropertyId → Int} {fees : FeeCache}
    (h : Balanced issue off tally fees)
    (hnonneg : NonNegative (shifted tally who p r source target))
    (hsource : source ≠ .pending) (htarget : target ≠ .pending)
    (hreserve : ∀ a q, (shifted tally who p r source target).amount a (q, .metadexReserve) =
      tally.amount a (q, .metadexReserve) + (off' a q - off a q)) :
    Balanced issue off' (shifted tally who p r source target) fees where
  nonneg := hnonneg
  reserve := by
    intro a q
    rw [hreserve, h.reserve]
    omega
  supply := by
    intro q
    have hsame : tokensOf (Elysium.shifted tally who p r source target) q = tokensOf tally q :=
      tokensOf_conveyed hsource htarget q
    rw [hsame]
    exact h.supply q
  increasing := h.increasing
  cached := h.cached
  native := h.native

end Shifts

/-! ## §3. `MetaDEx_ADD`. -/

section Adding

variable {A : Type} [LinearOrder A] {env : TokenEnv A} {issue : Issue} {market : Market A}
  {pnew : CMPMetaDEx A}

/-- What the loops of `x_Trade` start with. -/
def Market.trading (market : Market A) (pnew : CMPMetaDEx A) : Trading A :=
  { tally := market.tally, fees := market.fees, trades := market.trades, pnew }

variable {metadex : MdPropertiesMap A}

theorem offered_prices_le {q : PropertyId} {prices : MdPricesMap A}
    (hfiled : Filed metadex) (hfind : find q metadex = some prices) (a : A)
    (p : PropertyId) : 0 ≤ offered (openOrders metadex) a p - offered (ordersAt prices) a p := by
  have hempty := offered_upsert_property metadex q [] a p
  have hrest : 0 ≤ offered (openOrders (upsert q [] metadex)) a p := by
    apply offered_nonneg
    apply Filed.valid
    apply hfiled.upsert
    intro level hlevel
    cases hlevel
  have hnil : offered (ordersAt ([] : MdPricesMap A)) a p = 0 := rfl
  rw [hfind, getD_some, hnil] at hempty
  omega

/-- **`x_Trade`** keeps the market in order and never fails. -/
theorem xTrade_spec (h : InOrder issue market) (hready : Ready env issue (market.trading pnew))
    (hpos : 0 < pnew.amountRemaining) :
    ∃ market' pnew', xTrade env market pnew = .ok (market', pnew') ∧ InOrder issue market' ∧
      Ready env issue (market'.trading pnew') ∧
      (∃ r, pnew' = { pnew with amountRemaining := r }) ∧
      ∀ o ∈ openOrders market'.metadex, ∃ o' ∈ openOrders market.metadex, o.Continues o' := by
  have hvalid := h.filed.valid
  have hsame : ∀ o ∈ openOrders market.metadex, ∃ o' ∈ openOrders market.metadex, o.Continues o' :=
    fun o ho => ⟨o, ho, (hvalid o ho).continues⟩
  unfold xTrade
  cases hfind : find pnew.desProperty market.metadex with
  | none => exact ⟨market, pnew, rfl, h, hready, ⟨pnew.amountRemaining, rfl⟩, hsame⟩
  | some prices =>
    have hmem := mem_of_find hfind
    have hfiled : FiledPrices pnew.desProperty prices := h.filed _ hmem
    have hbase := offered_prices_le h.filed hfind
    have hbalanced : Balanced issue (fun a p => offered (openOrders market.metadex) a p -
        offered (ordersAt prices) a p + offered (ordersAt prices) a p)
        (market.trading pnew).tally (market.trading pnew).fees := by
      apply h.balanced.congr
      intro a p
      omega
    obtain ⟨t', prices', satisfied, hrun, hmatched, hfiled'⟩ :=
      tradePrices_spec hbase hbalanced hready hpos hfiled
    refine ⟨{ tally := t'.tally, fees := t'.fees, trades := t'.trades
              metadex := upsert pnew.desProperty prices' market.metadex }, t'.pnew, ?_,
      ⟨?_, h.filed.upsert hfiled', hmatched.ready.fair⟩, hmatched.ready, hmatched.order, ?_⟩
    · show (tradePrices env (market.trading pnew) prices >>= _) = _
      rw [hrun]
      rfl
    · apply hmatched.sound.congr
      intro a p
      have hchange := offered_upsert_property market.metadex pnew.desProperty prices' a p
      rw [hfind, getD_some] at hchange
      show offered (openOrders (upsert pnew.desProperty prices' market.metadex)) a p = _
      omega
    · intro o ho
      rcases mem_openOrders_upsert ho with ho | ho
      · obtain ⟨o', ho', hcontinues⟩ := hmatched.kept o ho
        exact ⟨o', mem_flatMap.mpr ⟨_, hmem, ho'⟩, hcontinues⟩
      · exact hsame o ho

/-- **`MetaDEx_INSERT`** adds what the order offers. -/
theorem metaDExInsert_spec {order : CMPMetaDEx A} (hfiled : Filed metadex) (hvalid : order.Valid)
    (hfresh : ∀ o ∈ openOrders metadex, ¬ order.SamePlace o) :
    ∃ metadex', metaDExInsert metadex order = some metadex' ∧ Filed metadex' ∧
      ∀ a p, offered (openOrders metadex') a p =
        offered (openOrders metadex) a p + offers a p order := by
  unfold metaDExInsert
  dsimp only
  have hprices : FiledPrices order.property ((find order.property metadex).getD []) :=
    forall_getD (P := FiledPrices) hfiled (forall_mem_nil _)
  have hindexes := forall_getD (k := order.unitPrice)
    (P := fun price orders => ∀ o ∈ orders, FiledAt order.property price o) hprices (forall_mem_nil _)
  have hproperty := offered_upsert_property metadex order.property
  have hprice := offered_upsert_price ((find order.property metadex).getD []) order.unitPrice
  have hmem : ∀ o ∈ (find order.unitPrice ((find order.property metadex).getD [])).getD
      [], o ∈ openOrders metadex :=
    fun o ho => mem_flatMap_of_getD ordersAt rfl (mem_flatMap_of_getD id rfl ho)
  generalize (find order.property metadex).getD [] = prices at *
  generalize (find order.unitPrice prices).getD [] = indexes at *
  obtain ⟨indexes', hrun, hperm⟩ := insertOrder_spec fun o ho => hfresh o (hmem o ho)
  rw [hrun]
  refine ⟨_, rfl, hfiled.upsert (hprices.upsert ?_), ?_⟩
  · intro o ho
    rcases mem_cons.mp (hperm.mem_iff.mp ho) with rfl | ho
    · exact ⟨hvalid, rfl, rfl⟩
    · exact hindexes o ho
  · intro a p
    have hoffered : offered indexes' a p = offers a p order + offered indexes a p := by
      unfold offered
      rw [(hperm.map (offers a p)).sum_eq, map_cons, sum_cons]
    have hchange := hproperty (upsert order.unitPrice indexes' prices) a p
    dsimp only
    have hchange' := hprice indexes' a p
    omega

/-- What `MetaDEx_ADD` is called with: positive amounts of two different properties that the
sender holds and may move, and a place no open order has.  Where a fee may be taken, its block
is not below that of the last fee and somebody holds the native token. -/
structure AddRequest (env : TokenEnv A) (market : Market A) (sender : A) (prop : PropertyId)
    (amount block : Int) (propertyDesired : PropertyId) (amountDesired : Int) (idx : Nat) :
    Prop where
  offer : 0 < amount ∧ amount ≤ maxInt64
  demand : 0 < amountDesired ∧ amountDesired ≤ maxInt64
  pair : prop ≠ propertyDesired
  funds : amount ≤ market.tally.amount sender (prop, .balance)
  thawed : env.frozen sender prop = false
  place : ∀ o ∈ openOrders market.metadex, ¬ (o.block = block ∧ o.idx = idx)
  newest : ∀ x ∈ market.fees.record propertyDesired, x.1 ≤ block
  holders : env.feesActive block → prop > ELYSIUM_PROPERTY_TELYSIUM →
    propertyDesired > ELYSIUM_PROPERTY_TELYSIUM → 0 < tokensOf market.tally (nativeOf propertyDesired)

/-- **`MetaDEx_ADD`** keeps the market in order and never fails. -/
theorem metaDExAdd_spec (h : InOrder issue market) {sender : A} {prop propertyDesired : PropertyId}
    {amount block amountDesired : Int} {idx : Nat} (txid : Uint256)
    (hrequest : AddRequest env market sender prop amount block propertyDesired amountDesired idx) :
    ∃ market', metaDExAdd env market sender prop amount block propertyDesired amountDesired txid
        idx = .ok (0, market') ∧ InOrder issue market' := by
  obtain ⟨order, horder⟩ : ∃ order : CMPMetaDEx A, order =
      { addr := sender, block, idx, txid, property := prop, amountForSale := amount
        desProperty := propertyDesired, amountDesired, amountRemaining := amount } := ⟨_, rfl⟩
  have hready : Ready env issue (market.trading order) := by
    rw [horder]
    refine ⟨hrequest.offer, hrequest.demand, ⟨?_, le_rfl⟩, hrequest.pair, hrequest.funds,
      hrequest.thawed, hrequest.newest, ?_, h.fair⟩
    · have hpos := hrequest.offer.1
      show 0 ≤ amount
      omega
    · intro hactive hprop hdesired
      have hhold := hrequest.holders hactive hprop hdesired
      have hsupply := h.balanced.supply (nativeOf propertyDesired)
      have hnative := h.balanced.native _ (nativeOf_le propertyDesired)
      show 0 < issue.holders propertyDesired
      unfold Issue.holders
      omega
  have hpos : 0 < order.amountRemaining := by
    rw [horder]
    exact hrequest.offer.1
  have hpriced : ¬ order.unitPrice ≤ 0 := by
    have hvalid : order.Valid := hready.valid hpos
    rw [unitPrice_eq hvalid, not_le]
    exact div_pos (by exact_mod_cast hvalid.desired.1) (by exact_mod_cast hvalid.forSale.1)
  obtain ⟨market', order', hrun, h', hready', ⟨r, hr⟩, hkept⟩ := xTrade_spec h hready hpos
  unfold metaDExAdd
  dsimp only
  rw [← horder, if_neg hpriced, hrun, ok_bind]
  dsimp only
  by_cases hleft : 0 < order'.amountRemaining
  · -- what remains is put into the book and moves into reserve
    have haddr : order'.addr = sender := by rw [hr, horder]
    have hproperty : order'.property = prop := by rw [hr, horder]
    have hfresh : ∀ o ∈ openOrders market'.metadex, ¬ order'.SamePlace o := by
      intro o ho hplace
      obtain ⟨o', ho', -, r', hr'⟩ := hkept o ho
      apply hrequest.place o' ho'
      rw [hr, horder, hr'] at hplace
      exact ⟨hplace.1.symm, hplace.2.symm⟩
    have hvalid' : order'.Valid := hready'.valid hleft
    obtain ⟨metadex', hinsert, hfiled', hoffered⟩ := metaDExInsert_spec h'.filed hvalid' hfresh
    have hfunds := hready'.funds
    have hthawed := hready'.thawed
    rw [show (market'.trading order').pnew = order' from rfl, haddr, hproperty] at hfunds hthawed
    obtain ⟨htake, hput, hnonneg⟩ := @convey_spec A _ env.frozen market'.tally sender sender prop
      order'.amountRemaining .balance .metadexReserve h'.balanced.nonneg
      (h'.balanced.tokensOf_le prop) hleft hfunds (fun _ => hthawed) (by decide) (by decide)
    rw [if_pos hleft, hinsert]
    dsimp only
    rw [htake, ok_bind, hput, ok_bind]
    refine ⟨_, rfl, ⟨?_, hfiled', h'.fair⟩⟩
    apply h'.balanced.shifted hnonneg (by decide) (by decide)
    intro a p
    rw [hoffered]
    unfold shifted offers
    simp only [Ledger.amount_add, Prod.mk.injEq, reduceCtorEq, and_false, if_false, add_zero,
      and_true, haddr, hproperty, eq_comm]
    split <;> omega
  · rw [if_neg hleft]
    exact ⟨market', rfl, h'⟩

end Adding

/-! ## §4. Closing orders. -/

section Closing

variable {A : Type} [LinearOrder A] {env : TokenEnv A} {issue : Issue} {fees : FeeCache}
  (close : CMPMetaDEx A → Bool)

theorem offered_cons (order : CMPMetaDEx A) (orders : MdSet A) (a : A) (p : PropertyId) :
    offered (order :: orders) a p = offers a p order + offered orders a p := rfl

/-- **Closing an order** gives back what was left of it. -/
theorem closeOrder_spec {base : A → PropertyId → Int} (hbase : ∀ a p, 0 ≤ base a p)
    {tally : TallyMap A} {order : CMPMetaDEx A} (hvalid : order.Valid)
    (h : Balanced issue (fun a p => base a p + offers a p order) tally fees) :
    ∃ tally₁, assertUpdate env.frozen tally order.addr order.property
        (-order.amountRemaining) .metadexReserve = .ok tally₁ ∧
      assertUpdate env.frozen tally₁ order.addr order.property order.amountRemaining .balance =
        .ok (shifted tally order.addr order.property order.amountRemaining .metadexReserve
          .balance) ∧
      Balanced issue base (shifted tally order.addr order.property order.amountRemaining
        .metadexReserve .balance) fees := by
  have hreserved : order.amountRemaining ≤
      tally.amount order.addr (order.property, .metadexReserve) := by
    have hoffers : offers order.addr order.property order = order.amountRemaining :=
      if_pos ⟨rfl, rfl⟩
    have hnonneg := hbase order.addr order.property
    rw [h.reserve, hoffers]
    omega
  obtain ⟨htake, hput, hnonneg⟩ := @convey_spec A _ env.frozen tally order.addr order.addr
      order.property
    order.amountRemaining .metadexReserve .balance h.nonneg (h.tokensOf_le _) hvalid.remaining.1
    hreserved (fun hbalance => nomatch hbalance) (by decide) (by decide)
  refine ⟨_, htake, hput, h.shifted hnonneg (by decide) (by decide) ?_⟩
  intro a p
  unfold shifted offers
  simp only [Ledger.amount_add, Prod.mk.injEq, reduceCtorEq, and_false, if_false, add_zero,
    and_true, eq_comm]
  split <;> omega

/-- What a loop does that closes orders: it never fails, it leaves the books balanced with the
orders that stay, whatever else is offered, and it keeps `Good`. -/
def Closes (issue : Issue) (fees : FeeCache) {V : Type} (orders : V → MdSet A) (Good : V → Prop)
    (loop : TallyMap A → V → Except Abort (TallyMap A × V × Bool)) : Prop :=
  ∀ (base : A → PropertyId → Int) (tally : TallyMap A) (v : V), (∀ a p, 0 ≤ base a p) → Good v →
    Balanced issue (fun a p => base a p + offered (orders v) a p) tally fees →
    ∃ tally' v' closed, loop tally v = .ok (tally', v', closed) ∧
      Balanced issue (fun a p => base a p + offered (orders v') a p) tally' fees ∧ Good v'

theorem closeSet_closes {Good : CMPMetaDEx A → Prop} (hvalid : ∀ {o}, Good o → o.Valid) :
    Closes issue fees (fun orders => orders) (fun orders => ∀ o ∈ orders, Good o)
      (closeSet env close) := by
  intro base tally orders hbase hgood h
  beta_reduce at hgood h ⊢
  induction orders generalizing tally base with
  | nil => exact ⟨tally, [], false, rfl, h, hgood⟩
  | cons order orders ih =>
    have horder := hgood order mem_cons_self
    have hrest : ∀ o ∈ orders, Good o := fun o ho => hgood o (mem_cons_of_mem order ho)
    unfold closeSet
    split
    · have hbase' := add_offered_nonneg hbase fun o ho => hvalid (hrest o ho)
      obtain ⟨tally₁, htake, hput, h'⟩ :=
        @closeOrder_spec A _ env issue fees _ hbase' tally order (hvalid horder)
          (by apply h.congr; intro a p; rw [offered_cons]; omega)
      obtain ⟨tally', orders', closed, hrun, h'', hgood'⟩ := ih _ _ hbase hrest h'
      refine ⟨tally', orders', true, ?_, h'', hgood'⟩
      rw [htake, ok_bind, hput, ok_bind, hrun]
      rfl
    · -- the order stays, and what it offers counts with the rest
      have hbase' : ∀ a p, 0 ≤ base a p + offers a p order := by
        intro a p
        have hnonneg := hbase a p
        have hpos := (hvalid horder).remaining.1
        unfold offers
        split <;> omega
      obtain ⟨tally', orders', closed, hrun, h', hgood'⟩ := ih _ _ hbase' hrest
        (by apply h.congr; intro a p; rw [offered_cons]; omega)
      refine ⟨tally', order :: orders', closed, ?_, ?_, forall_mem_cons.mpr ⟨horder, hgood'⟩⟩
      · rw [hrun]
        rfl
      · apply h'.congr
        intro a p
        rw [offered_cons]
        omega

/-- **The entries of a map that are selected**: `loop` is `step` on each of them. -/
theorem Closes.entries {K V : Type} {orders : V → MdSet A} {P : K → V → Prop}
    {step : TallyMap A → V → Except Abort (TallyMap A × V × Bool)} {selected : K → Bool}
    {loop : TallyMap A → List (K × V) → Except Abort (TallyMap A × List (K × V) × Bool)}
    (hnil : ∀ tally, loop tally [] = .ok (tally, [], false))
    (hcons : ∀ tally k v entries, loop tally ((k, v) :: entries) =
      if selected k then do
        let (tally, v, closed) ← step tally v
        let (tally, entries, more) ← loop tally entries
        return (tally, (k, v) :: entries, closed || more)
      else do
        let (tally, entries, more) ← loop tally entries
        return (tally, (k, v) :: entries, more))
    (hvalid : ∀ {k v}, P k v → ∀ o ∈ orders v, o.Valid)
    (hstep : ∀ k, Closes issue fees orders (P k) step) :
    Closes issue fees (fun entries => entries.flatMap fun e => orders e.2)
      (fun entries => ∀ e ∈ entries, P e.1 e.2) loop := by
  intro base tally entries hbase hgood h
  beta_reduce at hgood h ⊢
  induction entries generalizing tally base with
  | nil => exact ⟨tally, [], false, hnil tally, h, hgood⟩
  | cons entry entries ih =>
    obtain ⟨k, v⟩ := entry
    have hhead : P k v := hgood (k, v) mem_cons_self
    have hrest : ∀ e ∈ entries, P e.1 e.2 :=
      fun e he => hgood e (mem_cons_of_mem (k, v) he)
    have hsplit := (balanced_append_iff (l := orders v)).mp h
    rw [hcons]
    split
    · have hothers : ∀ o ∈ entries.flatMap fun e => orders e.2, o.Valid := by
        intro o ho
        obtain ⟨e, he, ho⟩ := mem_flatMap.mp ho
        exact hvalid (hrest e he) o ho
      obtain ⟨tally₁, v', closed, hrun, h₁, hhead'⟩ := hstep k _ _ v
        (add_offered_nonneg hbase hothers) hhead hsplit.swap
      obtain ⟨tally', entries', more, hrun', h₂, hrest'⟩ := ih _ _
        (add_offered_nonneg hbase (hvalid hhead')) hrest h₁.swap
      refine ⟨tally', (k, v') :: entries', closed || more, ?_,
        (balanced_append_iff (l := orders v')).mpr h₂, forall_mem_cons.mpr ⟨hhead', hrest'⟩⟩
      rw [hrun, ok_bind]
      dsimp only
      rw [hrun']
      rfl
    · obtain ⟨tally', entries', more, hrun, h', hrest'⟩ := ih _ _
        (add_offered_nonneg hbase (hvalid hhead)) hrest hsplit
      refine ⟨tally', (k, v) :: entries', more, ?_,
        (balanced_append_iff (l := orders v)).mpr h', forall_mem_cons.mpr ⟨hhead, hrest'⟩⟩
      rw [hrun]
      rfl

theorem closePrices_closes (level : ℚ → Bool) (p : PropertyId) :
    Closes issue fees ordersAt (FiledPrices p) (closePrices env close level) :=
  Closes.entries (P := fun price orders => ∀ o ∈ orders, FiledAt p price o) (fun _ => rfl)
    (fun _ _ _ _ => rfl) (fun hgood o ho => (hgood o ho).1) fun _ => closeSet_closes close And.left

theorem closeProperties_closes (selected : PropertyId → Bool) :
    Closes issue fees openOrders Filed (closeProperties env close selected) :=
  Closes.entries (fun _ => rfl) (fun _ _ _ _ => rfl) FiledPrices.valid
    fun p => closePrices_closes close (fun _ => true) p

variable {market : Market A}

theorem cancelProperty_spec (rc : Int) (prop : PropertyId) (level : ℚ → Bool)
    (h : InOrder issue market) :
    ∃ rc' market', cancelProperty env rc market prop level close = .ok (rc', market') ∧
      InOrder issue market' := by
  unfold cancelProperty
  cases hfind : find prop market.metadex with
  | none => exact ⟨rc - 1, market, rfl, h⟩
  | some prices =>
    have hfiled : FiledPrices prop prices := h.filed _ (mem_of_find hfind)
    obtain ⟨tally', prices', closed, hrun, h', hfiled'⟩ := @closePrices_closes A _ env issue
      market.fees close level prop _ market.tally prices (offered_prices_le h.filed hfind) hfiled
      (by apply h.balanced.congr; intro a p; omega)
    refine ⟨if closed then 0 else rc, { market with
      tally := tally', metadex := upsert prop prices' market.metadex }, ?_,
      ⟨?_, h.filed.upsert hfiled', h.fair⟩⟩
    · dsimp only
      rw [hrun]
      rfl
    · apply h'.congr
      intro a p
      have hchange := offered_upsert_property market.metadex prop prices' a p
      rw [hfind, getD_some] at hchange
      dsimp only
      omega

theorem closeProperties_inOrder (selected : PropertyId → Bool) (h : InOrder issue market) :
    ∃ tally' metadex' closed, closeProperties env close selected market.tally market.metadex =
        .ok (tally', metadex', closed) ∧
      InOrder issue { market with tally := tally', metadex := metadex' } := by
  obtain ⟨tally', metadex', closed, hrun, h', hfiled'⟩ := @closeProperties_closes A _ env issue
    market.fees close selected (fun _ _ => 0) market.tally market.metadex (fun _ _ => le_rfl)
    h.filed (by apply h.balanced.congr; intro a p; omega)
  refine ⟨tally', metadex', closed, hrun, ⟨?_, hfiled', h.fair⟩⟩
  apply h'.congr
  intro a p
  rw [zero_add]

end Closing

/-! ## §5. Runs. -/

variable {A : Type} [LinearOrder A] {env : TokenEnv A} {issue : Issue} {market : Market A}

/-- The calls of the exchange. -/
inductive MarketStep (A : Type) where
  | add (sender : A) (prop : PropertyId) (amount block : Int) (propertyDesired : PropertyId)
      (amountDesired : Int) (txid : Uint256) (idx : Nat)
  | cancelAtPrice (sender : A) (prop : PropertyId) (amount : Int) (propertyDesired : PropertyId)
      (amountDesired : Int)
  | cancelAllForPair (sender : A) (prop propertyDesired : PropertyId)
  | cancelEverything (sender : A) (ecosystem : PropertyId)
  | shutdown

/-- One call: its return code and the market it leaves. -/
def MarketStep.run (env : TokenEnv A) (market : Market A) :
    MarketStep A → Except Abort (Int × Market A)
  | .add sender prop amount block propertyDesired amountDesired txid idx =>
    metaDExAdd env market sender prop amount block propertyDesired amountDesired txid idx
  | .cancelAtPrice sender prop amount propertyDesired amountDesired =>
    metaDExCancelAtPrice env market sender prop amount propertyDesired amountDesired
  | .cancelAllForPair sender prop propertyDesired =>
    metaDExCancelAllForPair env market sender prop propertyDesired
  | .cancelEverything sender ecosystem => metaDExCancelEverything env market sender ecosystem
  | .shutdown => metaDExShutdown env market

/-- Several calls, one after the other. -/
def runMarket (env : TokenEnv A) : Market A → List (MarketStep A) → Except Abort (Market A)
  | market, [] => .ok market
  | market, step :: steps => do
    let (_, market) ← step.run env market
    runMarket env market steps

/-- A call with its preconditions: only `MetaDEx_ADD` has any. -/
def MarketStep.Admissible (env : TokenEnv A) (market : Market A) : MarketStep A → Prop
  | .add sender prop amount block propertyDesired amountDesired _ idx =>
    AddRequest env market sender prop amount block propertyDesired amountDesired idx
  | _ => True

/-- Every call meets its preconditions in the market that the calls before it leave. -/
def AdmissibleRun (env : TokenEnv A) : Market A → List (MarketStep A) → Prop
  | _, [] => True
  | market, step :: steps =>
    step.Admissible env market ∧
      match step.run env market with
      | .ok (_, market') => AdmissibleRun env market' steps
      | .error _ => True

/-- **One call** keeps the market in order and never fails. -/
theorem MarketStep.run_spec (step : MarketStep A) (h : InOrder issue market)
    (hadmissible : step.Admissible env market) :
    ∃ rc market', step.run env market = .ok (rc, market') ∧ InOrder issue market' := by
  cases step with
  | add sender prop amount block propertyDesired amountDesired txid idx =>
    obtain ⟨market', hrun, h'⟩ := metaDExAdd_spec h txid hadmissible
    exact ⟨0, market', hrun, h'⟩
  | cancelAtPrice | cancelAllForPair => exact cancelProperty_spec _ _ _ _ h
  | cancelEverything sender ecosystem =>
    obtain ⟨tally', metadex', closed, hrun, h'⟩ := @closeProperties_inOrder A _ env issue
      (fun order => order.addr = sender) market (inEcosystem ecosystem) h
    refine ⟨if closed then 0 else METADEX_ERROR - 40, _, ?_, h'⟩
    show (closeProperties _ _ _ _ _ >>= _) = _
    rw [hrun]
    rfl
  | shutdown =>
    obtain ⟨tally', metadex', closed, hrun, h'⟩ := @closeProperties_inOrder A _ env issue
      (fun _ => true) market (fun _ => true) h
    refine ⟨0, _, ?_, h'⟩
    show (closeProperties _ _ _ _ _ >>= _) = _
    rw [hrun]
    rfl

/-- **Any run** keeps the market in order and never fails. -/
theorem runMarket_spec {steps : List (MarketStep A)} (h : InOrder issue market)
    (hadmissible : AdmissibleRun env market steps) :
    ∃ market', runMarket env market steps = .ok market' ∧ InOrder issue market' := by
  induction steps generalizing market with
  | nil => exact ⟨market, rfl, h⟩
  | cons step steps ih =>
    obtain ⟨hstep, hrest⟩ := hadmissible
    obtain ⟨rc, market₁, hrun, h₁⟩ := step.run_spec h hstep
    rw [hrun] at hrest
    obtain ⟨market', hrun', h'⟩ := ih h₁ hrest
    refine ⟨market', ?_, h'⟩
    unfold runMarket
    rw [hrun]
    exact hrun'

/-- A market before the first order: nothing is in reserve, and no property has more tokens than
fit an `int64_t`. -/
structure Market.Start (market : Market A) : Prop where
  book : market.metadex = []
  trades : market.trades = []
  nonneg : NonNegative market.tally
  reserve : ∀ a p, market.tally.amount a (p, .metadexReserve) = 0
  increasing : ∀ p, Increasing (market.fees.record p)
  cached : ∀ p, 0 ≤ market.fees.getCachedAmount p
  supply : ∀ p, tokensOf market.tally p + market.fees.getCachedAmount p ≤ maxInt64

/-- The tokens at the start. -/
def Market.Start.issued (h : market.Start) : Issue where
  supply := fun p => tokensOf market.tally p + market.fees.getCachedAmount p
  nativeFees := market.fees.getCachedAmount
  supply_le := h.supply

theorem Market.Start.inOrder (h : market.Start) : InOrder h.issued market where
  balanced :=
    { nonneg := h.nonneg
      reserve := by
        intro a p
        rw [h.reserve, h.book]
        rfl
      supply := fun _ => rfl
      increasing := h.increasing
      cached := h.cached
      native := fun _ _ => rfl }
  filed := by
    intro e he
    rw [h.book] at he
    cases he
  fair := by
    intro trade htrade
    rw [h.trades] at htrade
    cases htrade

/-- **Runs of the exchange**: no assertion and no asserted update fails; every reserve is what the
open orders of the address offer; the tokens of a property, with those in the fee cache, are what
they were; and every fill was fair to both orders. -/
theorem metaDEx_run (env : TokenEnv A) {market : Market A} (hstart : market.Start)
    {steps : List (MarketStep A)} (hadmissible : AdmissibleRun env market steps) :
    ∃ market', runMarket env market steps = .ok market' ∧
      (∀ a p, market'.tally.amount a (p, .metadexReserve) =
        offered (openOrders market'.metadex) a p) ∧
      (∀ p, tokensOf market'.tally p + market'.fees.getCachedAmount p =
        tokensOf market.tally p + market.fees.getCachedAmount p) ∧
      ∀ trade ∈ market'.trades, trade.pold.unitPrice ≤ trade.price ∧
        trade.price ≤ trade.pnew.inversePrice := by
  obtain ⟨market', hrun, h'⟩ := runMarket_spec hstart.inOrder hadmissible
  exact ⟨market', hrun, h'.balanced.reserve, h'.balanced.supply, h'.fair⟩

/-! ## §6. A run, and a fee nobody can receive. -/

instance {sender : A} {prop propertyDesired : PropertyId} {amount block amountDesired : Int}
    {idx : Nat} : Decidable
      (AddRequest env market sender prop amount block propertyDesired amountDesired idx) :=
  decidable_of_iff ((0 < amount ∧ amount ≤ maxInt64) ∧
      (0 < amountDesired ∧ amountDesired ≤ maxInt64) ∧ prop ≠ propertyDesired ∧
      amount ≤ market.tally.amount sender (prop, .balance) ∧ env.frozen sender prop = false ∧
      (∀ o ∈ openOrders market.metadex, ¬ (o.block = block ∧ o.idx = idx)) ∧
      (∀ x ∈ market.fees.record propertyDesired, x.1 ≤ block) ∧
      (env.feesActive block → prop > ELYSIUM_PROPERTY_TELYSIUM →
        propertyDesired > ELYSIUM_PROPERTY_TELYSIUM →
        0 < tokensOf market.tally (nativeOf propertyDesired)))
    ⟨fun ⟨h₁, h₂, h₃, h₄, h₅, h₆, h₇, h₈⟩ => ⟨h₁, h₂, h₃, h₄, h₅, h₆, h₇, h₈⟩,
      fun ⟨h₁, h₂, h₃, h₄, h₅, h₆, h₇, h₈⟩ => ⟨h₁, h₂, h₃, h₄, h₅, h₆, h₇, h₈⟩⟩

instance (step : MarketStep A) : Decidable (step.Admissible env market) :=
  match step with
  | .add sender prop amount block propertyDesired amountDesired _ idx =>
    inferInstanceAs (Decidable
      (AddRequest env market sender prop amount block propertyDesired amountDesired idx))
  | .cancelAtPrice .. => .isTrue trivial
  | .cancelAllForPair .. => .isTrue trivial
  | .cancelEverything .. => .isTrue trivial
  | .shutdown => .isTrue trivial

/-- Whether a run is admissible is found by running it. -/
def decideAdmissibleRun (env : TokenEnv A) : (market : Market A) → (steps : List (MarketStep A)) →
    Decidable (AdmissibleRun env market steps)
  | _, [] => .isTrue trivial
  | market, step :: steps =>
    have : Decidable (match step.run env market with
        | .ok (_, market') => AdmissibleRun env market' steps
        | .error _ => True) :=
      match step.run env market with
      | .ok (_, market') => decideAdmissibleRun env market' steps
      | .error _ => .isTrue trivial
    inferInstanceAs (Decidable (_ ∧ _))

instance (steps : List (MarketStep A)) : Decidable (AdmissibleRun env market steps) :=
  decideAdmissibleRun env market steps

/-- The tally of single entries. -/
def tallyOf (entries : List (Nat × PropertyId × Int)) : TallyMap Nat :=
  entries.foldl (fun tally e => tally.add e.1 (e.2.1, .balance) e.2.2) Ledger.empty

theorem tallyOf_start {entries : List (Nat × PropertyId × Int)}
    (hpos : ∀ e ∈ entries, 0 ≤ e.2.2) (hsum : (entries.map (·.2.2)).sum ≤ maxInt64) :
    Market.Start { tally := tallyOf entries, fees := {}, metadex := [], trades := [] } := by
  -- what is held is not negative, not in reserve, and not more than all entries together
  have hheld : ∀ a p t, 0 ≤ (tallyOf entries).amount a (p, t) ∧
      (t ≠ .balance → (tallyOf entries).amount a (p, t) = 0) ∧
      tokensOf (tallyOf entries) p ≤ (entries.map (·.2.2)).sum := by
    clear hsum
    induction entries using List.reverseRecOn with
    | nil => exact fun a p t => ⟨le_rfl, fun _ => rfl, le_rfl⟩
    | append_singleton entries e ih =>
      intro a p t
      obtain ⟨hamount, hother, htokens⟩ := ih (fun e he => hpos e (mem_append_left _ he)) a p t
      have he := hpos e mem_concat_self
      have happend : tallyOf (entries ++ [e])
          = (tallyOf entries).add e.1 (e.2.1, .balance) e.2.2 := foldl_append
      rw [happend, Ledger.amount_add, tokensOf_add (by decide), map_append, sum_append]
      refine ⟨by split <;> omega, fun ht => ?_, ?_⟩
      · rw [if_neg (by simp [ht]), hother ht]
        rfl
      · rw [map_singleton, sum_singleton]
        split <;> omega
  exact
    { book := rfl
      trades := rfl
      nonneg := fun a p t _ => (hheld a p t).1
      reserve := fun a p => (hheld a p .metadexReserve).2.1 (by decide)
      increasing := fun _ => List.Pairwise.nil
      cached := fun _ => le_rfl
      supply := fun p => (Int.add_zero _).le.trans ((hheld 0 p .balance).2.2.trans hsum) }

/-- A market before the first order; two addresses, of which the first holds ELYSIUM. -/
def sampleMarket : Market Nat :=
  { tally := tallyOf [(1, 3, 100000), (2, 4, 100000), (1, 1, 10)], fees := {}, metadex := []
    trades := [] }

theorem sampleMarket_start : sampleMarket.Start := tallyOf_start (by decide) (by decide)

/-- Rules with fees. -/
def sampleEnv : TokenEnv Nat :=
  { frozen := fun _ _ => false, feesActive := fun _ => true, debugFees := false }

/-- The second order meets the first and pays a fee, which is distributed at once; what is left of
the first is cancelled. -/
theorem metaDEx_run_fill : let steps : List (MarketStep Nat) := [.add 1 3 50000 100 4 100000 7 0,
      .add 2 4 30000 101 3 10000 8 0, .cancelAllForPair 1 3 4]
    sampleMarket.Start ∧ AdmissibleRun sampleEnv sampleMarket steps ∧
      ∃ market', runMarket sampleEnv sampleMarket steps = .ok market' ∧
        (∀ a p, market'.tally.amount a (p, .metadexReserve) =
          offered (openOrders market'.metadex) a p) ∧
        (∀ p, tokensOf market'.tally p + market'.fees.getCachedAmount p =
          tokensOf sampleMarket.tally p + sampleMarket.fees.getCachedAmount p) ∧
        ∀ trade ∈ market'.trades, trade.pold.unitPrice ≤ trade.price ∧
          trade.price ≤ trade.pnew.inversePrice :=
  have hadmissible : AdmissibleRun sampleEnv sampleMarket [.add 1 3 50000 100 4 100000 7 0,
      .add 2 4 30000 101 3 10000 8 0, .cancelAllForPair 1 3 4] := by
    decide +kernel
  ⟨sampleMarket_start, hadmissible, metaDEx_run sampleEnv sampleMarket_start hadmissible⟩

/-- The first two properties of the test ecosystem, and no TELYSIUM. -/
def testTally : TallyMap Nat :=
  tallyOf [(1, TEST_ECO_PROPERTY_1, 100000), (2, TEST_ECO_PROPERTY_1 + 1, 100000)]

/-- A market in which the two properties may be traded. -/
def testMarket : Market Nat := { tally := testTally, fees := {}, metadex := [], trades := [] }

/-- **Nobody holds TELYSIUM**: both senders hold what they offer, the first order is added, and
the second one meets it, pays a fee and fails the assertion of the distribution. -/
theorem unheldToken_asserts :
    testMarket.Start ∧ (runMarket sampleEnv testMarket
        [.add 1 TEST_ECO_PROPERTY_1 60000 100 (TEST_ECO_PROPERTY_1 + 1) 60000 7 0]).map
          (fun market => market.tally.amount 2 (TEST_ECO_PROPERTY_1 + 1, .balance))
        = .ok 100000 ∧
      (runMarket sampleEnv testMarket
        [.add 1 TEST_ECO_PROPERTY_1 60000 100 (TEST_ECO_PROPERTY_1 + 1) 60000 7 0,
          .add 2 (TEST_ECO_PROPERTY_1 + 1) 40000 101 TEST_ECO_PROPERTY_1 40000 8 0]).map
        (fun _ => ()) = .error .assertion :=
  ⟨tallyOf_start (by decide) (by decide), by decide +kernel, by decide +kernel⟩

end Zcoin.Elysium
