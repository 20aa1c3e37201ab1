import Bourse.Proofs.Anchoring

/-!
# Listing a market

* `FirstUnmet`: of requirements in order, the fault of the first that is not met; a check that fails
  with just that fault `Enforces` them;
* `Market.requirements`: what is asked of a new market, first of the message alone and then of the
  state, in the documented order; `Listable`: that all of it is met;
* `Market.vet`: the checks of a listing with its charge, which enforce the requirements;
* `deliver_createPair`: a delivery is decided by them, as a listing that cannot be paid for is taken
  back (`Anchored.removePair_new`);
* `creation_exact`: so a market is listed exactly if it may be, and nothing else happens.
-/

namespace Bourse

/-- What is asked of a request, and why the request is refused without it. -/
structure Requirement where
  met : Prop
  fault : Fault

/-- The fault of the first requirement that is not met. -/
inductive FirstUnmet : List Requirement → Fault → Prop
  | here {r : Requirement} (rest : List Requirement) : ¬r.met → FirstUnmet (r :: rest) r.fault
  | later {r : Requirement} {rest : List Requirement} {fault : Fault} :
      r.met → FirstUnmet rest fault → FirstUnmet (r :: rest) fault

section Requirements

variable {r : Requirement} {l l' : List Requirement} {fault e : Fault} {α β : Type}

theorem not_firstUnmet_nil : ¬FirstUnmet [] fault := nofun

theorem firstUnmet_cons :
    FirstUnmet (r :: l) fault ↔ ¬r.met ∧ r.fault = fault ∨ r.met ∧ FirstUnmet l fault := by
  constructor
  · intro first
    cases first with
    | here _ unmet => exact .inl ⟨unmet, rfl⟩
    | later met rest => exact .inr ⟨met, rest⟩
  · rintro (⟨unmet, rfl⟩ | ⟨met, rest⟩)
    · exact .here l unmet
    · exact .later met rest

theorem firstUnmet_append : FirstUnmet (l ++ l') fault ↔
    FirstUnmet l fault ∨ (∀ r ∈ l, r.met) ∧ FirstUnmet l' fault := by
  induction l with
  | nil => simp [not_firstUnmet_nil]
  | cons r rest ih =>
      rw [List.cons_append, firstUnmet_cons, ih, firstUnmet_cons, List.forall_mem_cons]
      tauto

/-- Either all are met or there is a first that is not. -/
theorem exists_firstUnmet : (∃ fault, FirstUnmet l fault) ↔ ¬∀ r ∈ l, r.met := by
  induction l with
  | nil => simp [not_firstUnmet_nil]
  | cons r rest ih =>
      simp only [firstUnmet_cons, exists_or, exists_and_left, ih, List.forall_mem_cons,
        exists_eq', and_true]
      tauto

namespace Check

/-- The check fails with the first requirement that is not met, and succeeds if all are. -/
def Enforces (x : Except Fault α) (l : List Requirement) : Prop :=
  ∀ fault, x = .error fault ↔ FirstUnmet l fault

variable {x : Except Fault α} {f : α → Except Fault β}

theorem Enforces.ok_iff (enforces : Enforces x l) : (∃ a, x = .ok a) ↔ ∀ r ∈ l, r.met := by
  rw [← not_iff_not, ← exists_firstUnmet, ← exists_congr enforces]
  cases x <;> simp

theorem enforces_nil (a : α) : Enforces (.ok a : Except Fault α) [] := by
  intro fault
  simp [not_firstUnmet_nil]

/-- A check that can fail in one way only. -/
theorem enforces_of_ok {q : Prop} (ok : (∃ a, x = .ok a) ↔ q)
    (only : ∀ fault, x = .error fault → fault = e) : Enforces x [⟨q, e⟩] := by
  intro fault
  rw [firstUnmet_cons, ← ok]
  cases x with
  | ok a => simp [not_firstUnmet_nil]
  | error found =>
      obtain rfl := only found rfl
      simp

theorem enforces_if {p q : Prop} [Decidable p] (met : q ↔ ¬p) (rest : q → Enforces x l) :
    Enforces (if p then .error e else x) (⟨q, e⟩ :: l) := by
  intro fault
  rw [firstUnmet_cons, met, not_not]
  by_cases h : p
  · simp [h]
  · simp [h, rest (met.2 h) fault]

theorem enforces_guard {p q : Prop} [Decidable p] {next : PUnit → Except Fault β}
    (met : q ↔ ¬p) (rest : q → Enforces (next ⟨⟩) l) :
    Enforces (if p then throw e >>= next else next ⟨⟩) (⟨q, e⟩ :: l) := by
  intro fault
  rw [guard_error, firstUnmet_cons, met, not_not]
  exact or_congr_right (and_congr_right fun h => rest (met.2 h) fault)

theorem Enforces.bind (first : Enforces x l) (next : ∀ a, x = .ok a → Enforces (f a) l') :
    Enforces (x >>= f) (l ++ l') := by
  intro fault
  rw [bind_error, firstUnmet_append, first fault, ← first.ok_iff]
  apply or_congr_right
  constructor
  · rintro ⟨a, ended, failed⟩
    exact ⟨⟨a, ended⟩, (next a ended fault).1 failed⟩
  · rintro ⟨⟨a, ended⟩, unmet⟩
    exact ⟨a, ended, (next a ended fault).2 unmet⟩

end Check

end Requirements

namespace CreatePair

/-- What is asked of the message alone. -/
def requirements (c : CreatePair) : List Requirement := [
  ⟨c.creator.text ≠ "", .badAddress "creator is empty"⟩,
  ⟨c.stock ≠ "" ∧ c.money ≠ "", .badSymbol (PairId.join c.stock c.money).text⟩,
  ⟨PairId.separator ∉ c.stock.toList ∧ PairId.separator ∉ c.money.toList ∧ c.stock ≠ c.money,
    .badSymbol (PairId.join c.stock c.money).text⟩,
  ⟨c.precision ≤ Price.maxPrecision,
    .badPrecision s!"{c.precision} exceeds {Price.maxPrecision}"⟩]

open Check

theorem check_enforces (c : CreatePair) :
    Enforces (Message.createPair c).check c.requirements := by
  have address : Enforces (Message.requireAddress c.creator "creator")
      [⟨c.creator.text ≠ "", .badAddress "creator is empty"⟩] := by
    unfold Message.requireAddress
    exact enforces_if (by simp [Address.isEmpty]) fun _ => enforces_nil _
  have symbol (given : c.stock ≠ "" ∧ c.money ≠ "") :
      Enforces (PairId.parse (PairId.join c.stock c.money).text)
        [⟨PairId.separator ∉ c.stock.toList ∧ PairId.separator ∉ c.money.toList ∧
            c.stock ≠ c.money, .badSymbol (PairId.join c.stock c.money).text⟩] := by
    refine enforces_of_ok (PairId.parse_join.trans ?_) fun fault failed => ?_
    · rw [and_iff_right given.1, and_iff_right given.2]
    · exact (PairId.parse_error_iff.1 failed).1
  have precision : Enforces (Message.requirePrecision c.precision)
      [⟨c.precision ≤ Price.maxPrecision,
        .badPrecision s!"{c.precision} exceeds {Price.maxPrecision}"⟩] := by
    unfold Message.requirePrecision
    exact enforces_if not_lt.symm fun _ => enforces_nil _
  refine address.bind fun _ _ => enforces_guard (by simp) fun given => ?_
  exact (symbol given).bind fun _ _ => precision

end CreatePair

section Checks

open Check

/-- What is asked of the state of the market, in the documented order. -/
def Listing.requirements (c : CreatePair) (tokens : Tokens) (params : Params) (l : Ledger) :
    List Requirement :=
  let base := params.baseCurrency
  let available := (l.clearing.accounts.holding c.creator base).available
  [⟨tokens.isIssued c.stock = true, .unknownToken c.stock⟩,
    ⟨tokens.isIssued c.money = true, .unknownToken c.money⟩,
    ⟨tokens.issuer? c.stock = some c.creator ∨ tokens.issuer? c.money = some c.creator,
      .notIssuer c.creator.text c.stock c.money⟩,
    ⟨c.precision ≤ params.maxPrecision,
      .badPrecision s!"{c.precision} exceeds maximum {params.maxPrecision}"⟩,
    ⟨c.money = base → params.minPrecision ≤ c.precision,
      .badPrecision s!"{c.precision} below minimum {params.minPrecision} for {base}-quoted pairs"⟩,
    ⟨params.createMarketFee ≤ available,
      .insufficientFunds base params.createMarketFee available⟩,
    ⟨c.money = base ∨ c.stock = base ∨ (l.store.pair? (.join c.stock base)).isSome,
      .noBaseMarket c.stock base⟩,
    ⟨l.store.pair? (.join c.stock c.money) = none, .marketExists (.join c.stock c.money)⟩]

theorem checkMarketPrecision_enforces (params : Params) (quoted : Prop) [Decidable quoted]
    (precision : Nat) : Enforces (Fee.checkMarketPrecision params (decide quoted) precision) [
      ⟨precision ≤ params.maxPrecision,
        .badPrecision s!"{precision} exceeds maximum {params.maxPrecision}"⟩,
      ⟨quoted → params.minPrecision ≤ precision, .badPrecision
        s!"{precision} below minimum {params.minPrecision} for {params.baseCurrency}-quoted pairs"⟩]
    := by
  unfold Fee.checkMarketPrecision
  exact enforces_if not_lt.symm fun _ => enforces_if (by simp) fun _ => enforces_nil _

theorem checkListingFee_enforces (available required : Nat) (denom : Denom) :
    Enforces (Fee.checkListingFee available required denom)
      [⟨required ≤ available, .insufficientFunds denom required available⟩] := by
  unfold Fee.checkListingFee
  exact enforces_if not_lt.symm fun _ => enforces_nil _

theorem listing_enforces (c : CreatePair) (tokens : Tokens) (params : Params) (l : Ledger) :
    Enforces (Listing.check c tokens params l) (Listing.requirements c tokens params l) := by
  unfold Listing.check
  apply enforces_guard (by simp)
  intro _
  apply enforces_guard (by simp)
  intro _
  apply enforces_guard (by simp [Tokens.isIssuer, or_iff_not_imp_left])
  intro _
  refine (checkMarketPrecision_enforces params (c.money = params.baseCurrency) c.precision).bind
    fun _ _ => (checkListingFee_enforces _ _ _).bind fun _ _ => ?_
  apply enforces_guard
  · simp only [Store.hasPair_eq, Bool.not_eq_true']
    grind
  · intro _
    refine enforces_if ?_ fun _ => enforces_nil _
    rw [Store.hasPair_eq, Bool.not_eq_true, Option.isSome_eq_false_iff, Option.isNone_iff_eq_none]

/-- Covered funds can be sent unless the credit would not be a word. -/
theorem send_enforces {a : Accounts} {x y : Address} {coin : Coin}
    (enough : coin.amount ≤ (a.holding x coin.denom).available) :
    Enforces (a.send x y coin) [⟨x ≠ y → coin.amount ≠ 0 →
      (a.holding y coin.denom).available + coin.amount < Word.size,
        .overflow s!"sending {coin.text}"⟩] := by
  have ok : (∃ funds, a.send x y coin = .ok funds) ↔ (x ≠ y → coin.amount ≠ 0 →
      (a.holding y coin.denom).available + coin.amount < Word.size) := by
    simp only [Accounts.send_ok, enough, true_and, exists_or, exists_and_left, exists_eq, and_true]
    tauto
  refine enforces_of_ok ok fun fault failed => ?_
  have wide : ¬∃ funds, a.send x y coin = .ok funds := by simp [failed]
  rw [ok, Classical.not_imp, Classical.not_imp, not_lt] at wide
  obtain ⟨apart, nonzero, wide⟩ := wide
  simp only [Accounts.send, Coin.isZero, beq_iff_eq, nonzero, apart, or_self, wide,
    Nat.not_lt.2 enough, ↓reduceIte, Except.error.injEq] at failed
  exact failed.symm

end Checks

namespace Ledger

variable {l l' : Ledger} {c : CreatePair} {tokens : Tokens} {params : Params} {height : Nat}
  {funds : Accounts} {fault : Fault}

/-- What passes the checks is covered and new. -/
theorem covered_of_check (checked : Listing.check c tokens params l = .ok ()) :
    params.createMarketFee ≤
        (l.clearing.accounts.holding c.creator params.baseCurrency).available ∧
      l.store.pair? (.join c.stock c.money) = none := by
  have met := (listing_enforces c tokens params l).ok_iff.1 ⟨(), checked⟩
  simp only [Listing.requirements, List.forall_mem_cons] at met
  obtain ⟨-, -, -, -, -, covered, -, absent, -⟩ := met
  exact ⟨covered, absent⟩

theorem create_of_ok (checked : Listing.check c tokens params l = .ok ())
    (charged : l.clearing.accounts.send c.creator params.feeCollector
      ⟨params.baseCurrency, params.createMarketFee⟩ = .ok funds) :
    Listing.create c tokens params height l = .ok (.join c.stock c.money)
      ((l.withStore (l.store.setPair (Listing.newPair c params height))).withAccounts funds) := by
  obtain ⟨-, absent⟩ := covered_of_check checked
  refine Action.bind_ok.2 ⟨(), l, Action.ask_ok.2 ⟨checked, rfl⟩, ?_⟩
  refine Action.bind_ok.2 ⟨(), _, onStore_change_ok.2 ⟨_, Store.insertPair_ok.2 ⟨absent, rfl⟩, rfl⟩,
    ?_⟩
  refine Action.bind_ok.2 ⟨(), _, Action.orUndo_ok.2 (onAccounts_ok.2
    ⟨funds, Action.change_ok.2 charged, rfl⟩), ?_⟩
  exact Action.pure_ok.2 ⟨rfl, rfl⟩

/-- A listing fails with its checks or with its charge; then the new market is taken back. -/
theorem create_error (anchored : l.store.Anchored)
    (run : Listing.create c tokens params height l = .error fault l') :
    Listing.check c tokens params l = .error fault ∨
      Listing.check c tokens params l = .ok () ∧
        l.clearing.accounts.send c.creator params.feeCollector
          ⟨params.baseCurrency, params.createMarketFee⟩ = .error fault := by
  obtain failed | ⟨_, _, step, run⟩ := Action.bind_error.1 run
  · exact .inl (Action.ask_error.1 failed).1
  obtain ⟨checked, rfl⟩ := Action.ask_ok.1 step
  refine .inr ⟨checked, ?_⟩
  have absent : l.store.pair? (Listing.newPair c params height).id = none :=
    (covered_of_check checked).2
  obtain failed | ⟨_, _, step, run⟩ := Action.bind_error.1 run
  · obtain ⟨s, failed, -⟩ := onStore_error.1 failed
    have stored := Store.insertPair_ok.2 ⟨absent, rfl⟩
    rw [(Action.change_error.1 failed).1] at stored
    cases stored
  obtain ⟨s, listed, rfl⟩ := onStore_change_ok.1 step
  obtain ⟨-, rfl⟩ := Store.insertPair_ok.1 listed
  obtain failed | ⟨_, _, -, run⟩ := Action.bind_error.1 run
  · obtain ⟨e, t, unsent, undone⟩ := Action.orUndo_error.1 failed
    obtain ⟨funds, sending, rfl⟩ := onAccounts_error.1 unsent
    have unsent := (Action.change_error.1 sending).1
    obtain stuck | ⟨-, rfl⟩ := undone
    · obtain ⟨s', stuck, -⟩ := onStore_error.1 stuck
      obtain stuck | ⟨_, _, -, stuck⟩ := Action.bind_error.1 stuck
      · obtain ⟨out, s', removed⟩ := anchored.removePair_new absent
        have stuck := (Action.take_error.1 stuck).1
        rw [withAccounts_store, withStore_store, removed] at stuck
        cases stuck
      · exact absurd stuck Action.pure_error
    · exact unsent
  · exact absurd run Action.pure_error

end Ledger

namespace Market

open Check

variable {m : Market} {c : CreatePair} {funds : Accounts} {fault : Fault} {h : History}

/-- The credit of the fee to its collector. -/
def credit (m : Market) (c : CreatePair) : Requirement :=
  let charge : Coin := ⟨m.params.baseCurrency, m.params.createMarketFee⟩
  let collected := (m.ledger.clearing.accounts.holding m.params.feeCollector charge.denom).available
  ⟨c.creator ≠ m.params.feeCollector → charge.amount ≠ 0 → collected + charge.amount < Word.size,
    .overflow s!"sending {charge.text}"⟩

/-- All that is asked of a new market, in the documented order. -/
def requirements (m : Market) (c : CreatePair) : List Requirement :=
  c.requirements ++ (Listing.requirements c m.tokens m.params m.ledger ++ [m.credit c])

/-- A market that may be listed. -/
structure Listable (m : Market) (c : CreatePair) : Prop where
  checked : (Message.createPair c).check = .ok ()
  stockIssued : m.tokens.isIssued c.stock
  moneyIssued : m.tokens.isIssued c.money
  issuer : m.tokens.issuer? c.stock = some c.creator ∨ m.tokens.issuer? c.money = some c.creator
  precise : c.precision ≤ m.params.maxPrecision
  quoted : c.money = m.params.baseCurrency → m.params.minPrecision ≤ c.precision
  covered : m.params.createMarketFee ≤
    (m.ledger.clearing.accounts.holding c.creator m.params.baseCurrency).available
  based : c.money = m.params.baseCurrency ∨ c.stock = m.params.baseCurrency ∨
    (m.ledger.store.pair? (.join c.stock m.params.baseCurrency)).isSome
  absent : m.ledger.store.pair? (.join c.stock c.money) = none
  credited : c.creator ≠ m.params.feeCollector → m.params.createMarketFee ≠ 0 →
    (m.ledger.clearing.accounts.holding m.params.feeCollector m.params.baseCurrency).available +
      m.params.createMarketFee < Word.size

theorem listable_iff : m.Listable c ↔ ∀ r ∈ m.requirements c, r.met := by
  simp only [requirements, List.forall_mem_append, ← c.check_enforces.ok_iff,
    Listing.requirements, credit, List.forall_mem_cons]
  constructor
  · rintro ⟨checked, stock, money, issuer, precise, quoted, covered, based, absent, credited⟩
    exact ⟨⟨(), checked⟩, ⟨stock, money, issuer, precise, quoted, covered, based, absent, nofun⟩,
      credited, nofun⟩
  · rintro ⟨⟨_, checked⟩, ⟨stock, money, issuer, precise, quoted, covered, based, absent, -⟩,
      credited, -⟩
    exact ⟨checked, stock, money, issuer, precise, quoted, covered, based, absent, credited⟩

/-- The checks of a listing, with its charge. -/
def vet (m : Market) (c : CreatePair) : Except Fault Accounts := do
  (Message.createPair c).check
  Listing.check c m.tokens m.params m.ledger
  m.ledger.clearing.accounts.send c.creator m.params.feeCollector
    ⟨m.params.baseCurrency, m.params.createMarketFee⟩

theorem vet_enforces (m : Market) (c : CreatePair) : Enforces (m.vet c) (m.requirements c) :=
  c.check_enforces.bind fun _ _ =>
    (listing_enforces c m.tokens m.params m.ledger).bind fun _ checked =>
      send_enforces (Ledger.covered_of_check checked).1

theorem vet_ok : m.vet c = .ok funds ↔ (Message.createPair c).check = .ok () ∧
    Listing.check c m.tokens m.params m.ledger = .ok () ∧
    m.ledger.clearing.accounts.send c.creator m.params.feeCollector
      ⟨m.params.baseCurrency, m.params.createMarketFee⟩ = .ok funds := by
  simp only [vet, bind_ok, Unique.exists_iff, PUnit.default_eq_unit]

theorem vet_error : m.vet c = .error fault ↔ (Message.createPair c).check = .error fault ∨
    (Message.createPair c).check = .ok () ∧
      (Listing.check c m.tokens m.params m.ledger = .error fault ∨
        Listing.check c m.tokens m.params m.ledger = .ok () ∧
        m.ledger.clearing.accounts.send c.creator m.params.feeCollector
          ⟨m.params.baseCurrency, m.params.createMarketFee⟩ = .error fault) := by
  simp only [vet, bind_error, Unique.exists_iff, PUnit.default_eq_unit]

/-- A message that is applied with success passed the vetting. -/
theorem vet_of_apply [Build] {m' : Market} {done : Executed}
    (checked : (Message.createPair c).check = .ok ())
    (run : m.apply (.createPair c) = (.ok done, m')) : ∃ funds, m.vet c = .ok funds := by
  obtain ⟨l, acted, -⟩ := apply_ok run
  obtain ⟨id, created, -⟩ := Ledger.execute_create_ok acted
  obtain ⟨_, funds, listed, -, charged, -⟩ := Ledger.create_ok created
  exact ⟨funds, vet_ok.2 ⟨checked, listed, charged⟩⟩

/-- And one that fails, does so for the fault of the vetting. -/
theorem vet_of_apply_error [Build] {m' : Market} (anchored : m.ledger.store.Anchored)
    (checked : (Message.createPair c).check = .ok ())
    (run : m.apply (.createPair c) = (.error fault, m')) : m.vet c = .error fault := by
  obtain ⟨l, run⟩ := apply_failed run
  obtain failed | ⟨_, _, -, failed⟩ := Action.bind_error.1 run
  · have unlisted := Ledger.create_error anchored.opened failed
    exact vet_error.2 (.inr ⟨checked, unlisted⟩)
  · exact absurd failed Action.pure_error

/-- The market with the new record and with other accounts. -/
def founded (m : Market) (c : CreatePair) (funds : Accounts) : Market :=
  let record : Pair := {
    stock := c.stock
    money := c.money
    creator := c.creator
    precision := c.precision
    lastPrice := .zero
    matchInterval := m.params.matchInterval
    creationHeight := m.header.height }
  let tables := m.ledger.store.tables
  { m with ledger := {
      store := { m.ledger.store with
        tables := { tables with pairs := tables.pairs.insert (.join c.stock c.money) record } }
      clearing := { m.ledger.clearing with accounts := funds }
      nextFill := m.ledger.nextFill } }

theorem deliver_createPair [Build] (intact : m.Intact) (anchored : m.ledger.store.Anchored) :
    m.deliver (.createPair c) = match m.vet c with
      | .ok funds =>
          (.accepted s!"trading pair {(PairId.join c.stock c.money).text} created",
            m.founded c funds)
      | .error fault => (.refused fault, m) := by
  cases vetted : m.vet c with
  | ok funds =>
      obtain ⟨checked, listed, charged⟩ := vet_ok.1 vetted
      have created : Listing.create c m.tokens m.params m.header.height
          (m.ledger.withStore m.ledger.store.openJournal) = _ :=
        Ledger.create_of_ok listed charged
      obtain ⟨receipt, after⟩ := accepted_of_execute checked
        (Action.bind_ok.2 ⟨_, _, created, Action.pure_ok.2 ⟨rfl, rfl⟩⟩)
      refine Prod.ext receipt (after.trans ?_)
      simp only [founded, intact.idle]
      rfl
  | error fault =>
      obtain ⟨found, receipt, failed⟩ | ⟨done, checked, -, run⟩ := m.deliver_cases (.createPair c)
      · have vetted' : m.vet c = .error found := by
          obtain ⟨unchecked, -⟩ | ⟨checked, run⟩ := failed
          · exact vet_error.2 (.inl unchecked)
          · exact vet_of_apply_error anchored checked run
        obtain rfl := Except.error.inj (vetted.symm.trans vetted')
        exact Prod.ext receipt (intact.refused (by rw [receipt]; rfl))
      · obtain ⟨funds, vetted'⟩ := vet_of_apply checked run
        rw [vetted] at vetted'
        cases vetted'

/-- A market is listed exactly if it may be: the checks without state pass, both symbols are issued,
one of them by the creator, the precision suits, the fee is covered, there is a base market, the
market is new, and the fee can be credited. All that changes is then the new record and the fee in
the base currency. Otherwise nothing changes, and the fault is that of the first requirement, in the
documented order, that is not met. -/
theorem creation_exact [Build] (run : Run h m) (c : CreatePair) :
    ((m.deliver (.createPair c)).1.success = true ↔ m.Listable c) ∧
    (m.Listable c → ∃ funds,
      m.ledger.clearing.accounts.Sent c.creator m.params.feeCollector
        ⟨m.params.baseCurrency, m.params.createMarketFee⟩ funds ∧
      m.deliver (.createPair c) =
        (.accepted s!"trading pair {(PairId.join c.stock c.money).text} created",
          m.founded c funds)) ∧
    (¬m.Listable c → ∃ fault, FirstUnmet (m.requirements c) fault ∧
      m.deliver (.createPair c) = (.refused fault, m)) := by
  have delivered := deliver_createPair (c := c) run.intact run.anchored
  have enforces := m.vet_enforces c
  rw [listable_iff, ← enforces.ok_iff]
  cases vetted : m.vet c with
  | ok funds =>
      rw [vetted] at delivered
      obtain ⟨-, -, charged⟩ := vet_ok.1 vetted
      have accepted : (m.deliver (.createPair c)).1.success = true := by rw [delivered]; rfl
      exact ⟨iff_of_true accepted ⟨funds, rfl⟩,
        fun _ => ⟨funds, Accounts.sent_of_send charged, delivered⟩,
        fun failed => absurd ⟨funds, rfl⟩ failed⟩
  | error fault =>
      rw [vetted] at delivered
      have refused : ¬(m.deliver (.createPair c)).1.success = true := by rw [delivered]; nofun
      have failed : ¬∃ funds, (.error fault : Except Fault Accounts) = .ok funds := nofun
      exact ⟨iff_of_false refused failed, fun ok => absurd ok failed,
        fun _ => ⟨fault, (enforces fault).1 vetted, delivered⟩⟩

section Brimming

attribute [local instance] Build.checked

/-- The collector could not take a listing fee on top of what it holds. -/
def brimming : Market :=
  let funds := traders.ledger.clearing.accounts
  { traders with
    ledger := traders.ledger.withAccounts (funds.set ⟨"fee_collector"⟩ "cet" ⟨Word.size - 1, 0⟩) }

/-- The same message lists a market for the traders, and is refused once the collector is full. -/
theorem traders_creation :
    (∃ funds, traders.ledger.clearing.accounts.Sent ⟨"a"⟩ ⟨"fee_collector"⟩
        ⟨"cet", 1000000000000⟩ funds ∧
      traders.deliver listing =
        (.accepted "trading pair btc/cet created",
          traders.founded ⟨"btc", "cet", ⟨"a"⟩, 8⟩ funds)) ∧
    ∃ fault, FirstUnmet (brimming.requirements ⟨"btc", "cet", ⟨"a"⟩, 8⟩) fault ∧
      brimming.deliver listing = (.refused fault, brimming) := by
  have start : Run {} traders := .start traders.tokens .default traders_range
  have full : Run _ brimming :=
    start.call (.accounts (traders_range.set (by decide) (by decide)))
  have listable : traders.Listable ⟨"btc", "cet", ⟨"a"⟩, 8⟩ := {
    checked := by decide +kernel
    stockIssued := by decide +kernel
    moneyIssued := by decide +kernel
    issuer := by decide +kernel
    precise := by decide
    quoted := by decide
    covered := by decide +kernel
    based := .inl rfl
    absent := by decide +kernel
    credited := by decide +kernel }
  have refused : ¬brimming.Listable ⟨"btc", "cet", ⟨"a"⟩, 8⟩ := by
    intro listable
    exact absurd (listable.credited (by decide) (by decide)) (by decide +kernel)
  exact ⟨(creation_exact start _).2.1 listable, (creation_exact full _).2.2 refused⟩

end Brimming

end Market

end Bourse
