import Homeworks.BankServer.Server
import Homeworks.Table.Entries
import Homeworks.Transition.Runs

/-!
# The tellers of a batch

There is a teller for every request of a batch, and the tellers run in any order.  Each
writes the account that it serves to the shared memory, and reads it again in a later region.
-/

open Relation

namespace BankServer

/-- Where a teller is. -/
inductive TellerPc where
  /-- verifies its request -/
  | verifying
  /-- replies that its request is not verified -/
  | rejecting
  /-- runs `assign_bankid` -/
  | assigning
  /-- runs `process_transaction`, after an account has been assigned to its client -/
  | processing (own : Int)
  | done

structure Teller where
  idx : Fin MAX_REQ
  pc : TellerPc

/-- The shared memory and the tellers. -/
structure Bank where
  shared : Shared
  tellers : List Teller

namespace Bank

/-- The requests of a batch are stored, and a teller is made for each. -/
def forked (s : Shared) (base : Nat) (batch : List Request) : Option Bank :=
  (storeRequests s base batch).map fun s' =>
    ⟨s', (List.range batch.length).map fun i => ⟨Fin.ofNat MAX_REQ (base + i), .verifying⟩⟩

/-- The request of a teller. -/
def request (x : Bank) (idx : Fin MAX_REQ) : Request := x.shared.requests idx

/-- A step of the teller `k`.  After a store outside of the table of accounts anything may
happen. -/
inductive TellerStep (k : Nat) (x : Bank) : Bank → Prop where
  | verified {idx : Fin MAX_REQ} (hk : x.tellers[k]? = some ⟨idx, .verifying⟩)
      (h : verify (x.request idx) = 0) :
    TellerStep k x { x with tellers := x.tellers.set k ⟨idx, .assigning⟩ }
  | notVerified {idx : Fin MAX_REQ} (hk : x.tellers[k]? = some ⟨idx, .verifying⟩)
      (h : verify (x.request idx) ≠ 0) :
    TellerStep k x { x with tellers := x.tellers.set k ⟨idx, .rejecting⟩ }
  | rejected {idx : Fin MAX_REQ} (hk : x.tellers[k]? = some ⟨idx, .rejecting⟩) :
    TellerStep k x { x with tellers := x.tellers.set k ⟨idx, .done⟩ }
  | assigned {idx : Fin MAX_REQ} {s' : Shared} (hk : x.tellers[k]? = some ⟨idx, .assigning⟩)
      (h : assignBankid x.shared idx = some (.ok s')) :
    TellerStep k x
      ⟨s', x.tellers.set k ⟨idx, .processing (account x.shared (x.request idx))⟩⟩
  | invalid {idx : Fin MAX_REQ} {reply : Reply} (hk : x.tellers[k]? = some ⟨idx, .assigning⟩)
      (h : assignBankid x.shared idx = some (.error reply)) :
    TellerStep k x { x with tellers := x.tellers.set k ⟨idx, .done⟩ }
  | processed {idx : Fin MAX_REQ} {own : Int} {outcome : Outcome}
      (hk : x.tellers[k]? = some ⟨idx, .processing own⟩)
      (h : processTransaction x.shared idx (isDeposit (x.request idx)) = some outcome) :
    TellerStep k x ⟨outcome.shared, x.tellers.set k ⟨idx, .done⟩⟩
  | assignedOutside {idx : Fin MAX_REQ} (x' : Bank)
      (hk : x.tellers[k]? = some ⟨idx, .assigning⟩) (h : assignBankid x.shared idx = none) :
    TellerStep k x x'
  | processedOutside {idx : Fin MAX_REQ} {own : Int} (x' : Bank)
      (hk : x.tellers[k]? = some ⟨idx, .processing own⟩)
      (h : processTransaction x.shared idx (isDeposit (x.request idx)) = none) :
    TellerStep k x x'

end Bank

/-- What a request does to the account that it is for. -/
def transact (r : Request) (a : Account) : Account :=
  let amount := CString.atoi r.credit
  if isDeposit r then
    { a with
      balance := CString.int (a.balance + amount)
      deposited := CString.int (a.deposited + amount) }
  else if a.balance ≥ amount then
    { a with
      balance := CString.int (a.balance - amount)
      withdrawn := CString.int (a.withdrawn + amount) }
  else
    a

/-! ### The regions -/

/-- What `assign_bankid` changes. -/
theorem assignBankid_spec {s s' : Shared} {idx : Fin MAX_REQ}
    (h : assignBankid s idx = some (.ok s')) :
  s'.bId = account s (s.requests idx) ∧ s'.requests = s.requests
    ∧ ∀ i, entry (account s (s.requests idx)) ≠ some i → s'.accounts i = s.accounts i
  := by
  simp only [assignBankid] at h
  split at h
  · split at h
    · rename_i i hi
      cases h
      refine ⟨rfl, rfl, ?_⟩
      intro j hj
      have hne : j ≠ i := by
        rintro rfl
        exact hj hi
      simp [Shared.setAccount, hne]
    · cases h
  · split at h
    · cases h
    · cases h
      exact ⟨rfl, rfl, fun _ _ => rfl⟩

/-- An account is assigned to a request unless it does not exist. -/
theorem assignBankid_none {s : Shared} {idx : Fin MAX_REQ} (h : assignBankid s idx = none) :
  (s.requests idx).id = "N".toList ∧ entry (account s (s.requests idx)) = none
  := by
  simp only [assignBankid] at h
  split at h
  · rename_i hid
    split at h
    · cases h
    · rename_i hnone
      exact ⟨hid, hnone⟩
  · split at h <;> cases h

/-- A request for an account that there is. -/
theorem assignBankid_existing {s : Shared} {idx : Fin MAX_REQ} {id : Int}
    (hid : (s.requests idx).id ≠ "N".toList) (haccount : account s (s.requests idx) = id)
    (h : 0 ≤ id ∧ id ≤ s.active) :
  assignBankid s idx = some (.ok { s with bId := id })
  := by
  have hin : ¬ (id < 0 ∨ id > s.active) := by
    rintro (hlt | hgt)
    · exact h.1.not_gt hlt
    · exact h.2.not_gt hgt
  simp only [assignBankid, hid, haccount, hin, if_false]

/-- What `process_transaction` changes. -/
theorem processTransaction_spec {s : Shared} (idx : Fin MAX_REQ) {i : Fin MAX_CLI}
    (hi : entry s.bId = some i) :
  ∃ outcome, processTransaction s idx (isDeposit (s.requests idx)) = some outcome
    ∧ outcome.shared = s.setAccount i (transact (s.requests idx) (s.accounts i))
  := by
  simp only [processTransaction, hi, transact]
  split
  · exact ⟨_, rfl, rfl⟩
  · split
    · exact ⟨_, rfl, rfl⟩
    · refine ⟨_, rfl, ?_⟩
      simp [Shared.setAccount]

namespace Bank

variable {x x' : Bank} {k : Nat}

/-- If the teller `k` is about to assign an account and does not reject it, then there is such
an account, and every teller that has assigned one and not yet processed its request has
assigned the same. -/
def Undisturbed (k : Nat) (x : Bank) : Prop :=
  ∀ idx, x.tellers[k]? = some ⟨idx, .assigning⟩ →
    let id := account x.shared (x.request idx)
    ((x.request idx).id = "N".toList ∨ 0 ≤ id ∧ id ≤ x.shared.active) →
      entry id ≠ none ∧ ∀ (k' : Nat) (idx' : Fin MAX_REQ) (own : Int),
        x.tellers[k']? = some ⟨idx', .processing own⟩ → own = id

/-- The account in the shared memory is that of every teller that has assigned one. -/
structure Agreed (x : Bank) : Prop where
  own : ∀ (k : Nat) (idx : Fin MAX_REQ) (own : Int),
    x.tellers[k]? = some ⟨idx, .processing own⟩ → own = x.shared.bId ∧ entry own ≠ none
  number : ∀ (k : Nat) (idx : Fin MAX_REQ) (own : Int),
    x.tellers[k]? = some ⟨idx, .processing own⟩ →
    (x.request idx).id ≠ "N".toList → own = CString.atoi (x.request idx).number

theorem agreed_forked {s : Shared} {base : Nat} {batch : List Request}
    (h : forked s base batch = some x) :
  Agreed x
  := by
  obtain ⟨s', -, rfl⟩ := Option.map_eq_some_iff.mp h
  have hverifying : ∀ (k : Nat) (idx : Fin MAX_REQ) (own : Int),
      ((List.range batch.length).map fun i =>
        (⟨Fin.ofNat MAX_REQ (base + i), .verifying⟩ : Teller))[k]?
        ≠ some ⟨idx, .processing own⟩ := by
    intro k idx own hk
    rw [List.getElem?_map, Option.map_eq_some_iff] at hk
    obtain ⟨idx', -, hteller⟩ := hk
    cases hteller
  constructor
  · intro k idx own hk
    exact absurd hk (hverifying k idx own)
  · intro k idx own hk
    exact absurd hk (hverifying k idx own)

/-- A teller that does not assign an account goes on. -/
theorem Agreed.set (h : Agreed x) {idx : Fin MAX_REQ} {pc pc' : TellerPc} {s' : Shared}
    (hk : x.tellers[k]? = some ⟨idx, pc⟩) (hpc : ∀ own, pc' ≠ .processing own)
    (hbId : s'.bId = x.shared.bId) (hrequests : s'.requests = x.shared.requests) :
  Agreed ⟨s', x.tellers.set k ⟨idx, pc'⟩⟩
  := by
  have hold : ∀ {k' : Nat} {idx' : Fin MAX_REQ} {own : Int},
      (x.tellers.set k ⟨idx, pc'⟩)[k']? = some ⟨idx', .processing own⟩ →
      x.tellers[k']? = some ⟨idx', .processing own⟩ := by
    intro k' idx' own hk'
    rcases eq_or_ne k' k with rfl | hne
    · rw [Table.get_set hk] at hk'
      cases hk'
      exact absurd rfl (hpc own)
    · rwa [List.getElem?_set_ne hne.symm] at hk'
  constructor
  · intro k' idx' own hk'
    rw [hbId]
    apply h.own k' idx' own (hold hk')
  · intro k' idx' own hk'
    simp only [request, hrequests]
    apply h.number k' idx' own (hold hk')

/-- A teller that assigns an account undisturbed. -/
theorem Agreed.assigned (h : Agreed x) (hu : Undisturbed k x) {idx : Fin MAX_REQ} {s' : Shared}
    (hk : x.tellers[k]? = some ⟨idx, .assigning⟩)
    (hs : assignBankid x.shared idx = some (.ok s')) :
  Agreed ⟨s', x.tellers.set k ⟨idx, .processing (account x.shared (x.request idx))⟩⟩
  := by
  obtain ⟨hbId, hrequests, -⟩ := assignBankid_spec hs
  have haccepted : (x.request idx).id = "N".toList
      ∨ 0 ≤ account x.shared (x.request idx)
      ∧ account x.shared (x.request idx) ≤ x.shared.active := by
    simp only [assignBankid] at hs
    split at hs
    · rename_i hid
      exact .inl hid
    · split at hs
      · cases hs
      · rename_i hin
        simp only [not_or, not_lt] at hin
        exact .inr hin
  obtain ⟨hentry, hsame⟩ := hu idx hk haccepted
  constructor
  · intro k' idx' own hk'
    dsimp only
    rw [hbId]
    rcases eq_or_ne k' k with rfl | hne
    · rw [Table.get_set hk] at hk'
      cases hk'
      exact ⟨rfl, hentry⟩
    · rw [List.getElem?_set_ne hne.symm] at hk'
      rw [hsame k' idx' own hk']
      exact ⟨rfl, hentry⟩
  · intro k' idx' own hk' hid
    simp only [request, hrequests] at hid ⊢
    rcases eq_or_ne k' k with rfl | hne
    · rw [Table.get_set hk] at hk'
      cases hk'
      simp only [account, request, hid, if_false]
    · rw [List.getElem?_set_ne hne.symm] at hk'
      apply h.number k' idx' own hk' hid

/-- A teller that has assigned an account processes its request on that account. -/
theorem Agreed.processes (h : Agreed x) {idx : Fin MAX_REQ} {own : Int}
    (hk : x.tellers[k]? = some ⟨idx, .processing own⟩) :
  ∃ i outcome, entry own = some i
    ∧ processTransaction x.shared idx (isDeposit (x.request idx)) = some outcome
    ∧ outcome.shared = x.shared.setAccount i (transact (x.request idx) (x.shared.accounts i))
  := by
  obtain ⟨rfl, hentry⟩ := h.own k idx own hk
  obtain ⟨i, hi⟩ := Option.ne_none_iff_exists'.mp hentry
  obtain ⟨outcome, ho, hshared⟩ := processTransaction_spec idx hi
  exact ⟨i, outcome, hi, ho, hshared⟩

theorem Agreed.step (h : Agreed x) (hstep : TellerStep k x x') (hu : Undisturbed k x) :
  Agreed x'
  := by
  cases hstep with
  | verified hk | notVerified hk | rejected hk | invalid hk =>
      apply h.set hk _ rfl rfl
      rintro own ⟨⟩
  | assigned hk hs => apply h.assigned hu hk hs
  | @processed idx own outcome hk ho =>
      obtain ⟨i, outcome', hi, ho', hshared⟩ := h.processes hk
      rw [ho'] at ho
      cases ho
      apply h.set hk
      · rintro own ⟨⟩
      · rw [hshared]
        rfl
      · rw [hshared]
        rfl
  | @assignedOutside idx x' hk hnone =>
      obtain ⟨hid, hentry⟩ := assignBankid_none hnone
      exact absurd hentry (hu idx hk (.inl hid)).1
  | @processedOutside idx own x' hk hnone =>
      obtain ⟨i, outcome', -, ho', -⟩ := h.processes hk
      rw [ho'] at hnone
      cases hnone

/-- A step of a teller changes no account but its own: the one that it assigns to its request,
and that its request names unless it is for a new account.  Processing the request does to
this account what the request says. -/
structure OwnAccount (k : Nat) (x x' : Bank) : Prop where
  others : ∀ idx, x.tellers[k]? = some ⟨idx, .assigning⟩ → ∀ i,
    entry (account x.shared (x.request idx)) ≠ some i → x'.shared.accounts i = x.shared.accounts i
  named : ∀ idx own, x.tellers[k]? = some ⟨idx, .processing own⟩ →
    (x.request idx).id ≠ "N".toList → own = CString.atoi (x.request idx).number
  own : ∀ idx own, x.tellers[k]? = some ⟨idx, .processing own⟩ → ∃ i, entry own = some i
    ∧ x'.shared.accounts = Function.update x.shared.accounts i
      (transact (x.request idx) (x.shared.accounts i))
  unchanged : ∀ idx pc, x.tellers[k]? = some ⟨idx, pc⟩ → pc ≠ .assigning →
    (∀ own, pc ≠ .processing own) → x'.shared.accounts = x.shared.accounts

theorem Agreed.ownAccount (h : Agreed x) (hstep : TellerStep k x x') (hu : Undisturbed k x) :
  OwnAccount k x x'
  := by
  have hat : ∀ {idx idx' : Fin MAX_REQ} {pc pc' : TellerPc}, x.tellers[k]? = some ⟨idx, pc⟩ →
      x.tellers[k]? = some ⟨idx', pc'⟩ → idx' = idx ∧ pc' = pc := by
    intro idx idx' pc pc' hk hk'
    rw [hk] at hk'
    cases hk'
    exact ⟨rfl, rfl⟩
  cases hstep with
  | verified hk | notVerified hk | rejected hk =>
      constructor
      · intro idx hk' i _
        rfl
      · intro idx own hk'
        apply h.number k idx own hk'
      · intro idx own hk'
        cases (hat hk hk').2
      · intro idx pc hk' _ _
        rfl
  | @assigned idx s' hk hs =>
      obtain ⟨-, -, haccounts⟩ := assignBankid_spec hs
      constructor
      · intro idx' hk' i hi
        rw [(hat hk hk').1] at hi
        apply haccounts i hi
      · intro idx' own hk'
        cases (hat hk hk').2
      · intro idx' own hk'
        cases (hat hk hk').2
      · intro idx' pc hk' hpc _
        exact absurd (hat hk hk').2 hpc
  | invalid hk =>
      constructor
      · intro idx' hk' i _
        rfl
      · intro idx' own hk'
        cases (hat hk hk').2
      · intro idx' own hk'
        cases (hat hk hk').2
      · intro idx' pc hk' _ _
        rfl
  | @processed idx own outcome hk ho =>
      obtain ⟨i, outcome', hi, ho', hshared⟩ := h.processes hk
      rw [ho'] at ho
      cases ho
      constructor
      · intro idx' hk'
        cases (hat hk hk').2
      · intro idx' own hk'
        apply h.number k idx' own hk'
      · intro idx' own hk'
        obtain ⟨rfl, hown⟩ := hat hk hk'
        cases hown
        use i, hi
        dsimp only
        rw [hshared]
        rfl
      · intro idx' pc hk' _ hpc
        exact absurd (hat hk hk').2 (hpc _)
  | @assignedOutside idx x' hk hnone =>
      obtain ⟨hid, hentry⟩ := assignBankid_none hnone
      exact absurd hentry (hu idx hk (.inl hid)).1
  | @processedOutside idx own x' hk hnone =>
      obtain ⟨i, outcome', -, ho', -⟩ := h.processes hk
      rw [ho'] at hnone
      cases hnone

/-- In every run in which accounts are assigned undisturbed, every teller changes the account
of its own client only. -/
theorem tellers_own_account (s : Shared) (base : Nat) (batch : List Request) (x₀ x : Bank)
    (h₀ : forked s base batch = some x₀)
    (h : ReflTransGen (fun x x' => ∃ k, TellerStep k x x' ∧ Undisturbed k x) x₀ x) :
  ∀ k x', TellerStep k x x' → Undisturbed k x → OwnAccount k x x'
  := by
  have hagreed : Agreed x := by
    apply Transition.invariant (I := Agreed) _ h (agreed_forked h₀)
    rintro x x' hx ⟨k, hstep, hu⟩
    apply hx.step hstep hu
  intro k x' hstep hu
  apply hagreed.ownAccount hstep hu

/-! ### Two clients -/

/-- A bank with two accounts. -/
def ledger : Shared := ⟨fun _ => .of "" "" "" "", fun i => ⟨i, 0, 0, 0⟩, 2, 0⟩

def firstRequest : Request := .of "BankID_01" "deposit" "10" "client_fifo_0"

def secondRequest : Request := .of "BankID_02" "deposit" "20" "client_fifo_1"

/-- The shared memory with the two requests, after an account has been assigned. -/
def stored (bId : Int) : Shared :=
  { ledger with
    requests := fun idx =>
      if 0 ≤ idx.val then
        [firstRequest, secondRequest].getD (idx - 0) (ledger.requests idx)
      else
        ledger.requests idx
    bId := bId }

theorem forked_stored :
  forked ledger 0 [firstRequest, secondRequest]
    = some ⟨stored 0, [⟨0, .verifying⟩, ⟨1, .verifying⟩]⟩
  := rfl

theorem account_first : account (stored 0) firstRequest = 1 := by decide

theorem account_second : account (stored 1) secondRequest = 2 := by decide

/-- Both requests are verified. -/
theorem run_verified :
  ReflTransGen (fun x x' => ∃ k, TellerStep k x x' ∧ Undisturbed k x)
    ⟨stored 0, [⟨0, .verifying⟩, ⟨1, .verifying⟩]⟩
    ⟨stored 0, [⟨0, .assigning⟩, ⟨1, .assigning⟩]⟩
  := by
  have hfirst : TellerStep 0 ⟨stored 0, [⟨0, .verifying⟩, ⟨1, .verifying⟩]⟩
      ⟨stored 0, [⟨0, .assigning⟩, ⟨1, .verifying⟩]⟩ :=
    .verified rfl (by decide)
  have hsecond : TellerStep 1 ⟨stored 0, [⟨0, .assigning⟩, ⟨1, .verifying⟩]⟩
      ⟨stored 0, [⟨0, .assigning⟩, ⟨1, .assigning⟩]⟩ :=
    .verified rfl (by decide)
  have hu : Undisturbed 0 ⟨stored 0, [⟨0, .verifying⟩, ⟨1, .verifying⟩]⟩ := by
    rintro idx ⟨⟩
  have hu' : Undisturbed 1 ⟨stored 0, [⟨0, .assigning⟩, ⟨1, .verifying⟩]⟩ := by
    rintro idx ⟨⟩
  exact (ReflTransGen.single ⟨0, hfirst, hu⟩).tail ⟨1, hsecond, hu'⟩

/-- A teller assigns an account that there is. -/
theorem TellerStep.existing {idx : Fin MAX_REQ} {id : Int}
    (hk : x.tellers[k]? = some ⟨idx, .assigning⟩) (hid : (x.request idx).id ≠ "N".toList)
    (haccount : account x.shared (x.request idx) = id) (h : 0 ≤ id ∧ id ≤ x.shared.active) :
  TellerStep k x ⟨{ x.shared with bId := id }, x.tellers.set k ⟨idx, .processing id⟩⟩
  := by
  rw [← haccount]
  apply TellerStep.assigned hk
  apply assignBankid_existing hid rfl
  rw [request] at haccount
  rw [haccount]
  exact h

/-- The first teller assigns an account. -/
theorem step_assigned :
  TellerStep 0 ⟨stored 0, [⟨0, .assigning⟩, ⟨1, .assigning⟩]⟩
    ⟨stored 1, [⟨0, .processing 1⟩, ⟨1, .assigning⟩]⟩
  := .existing rfl (by decide) account_first (by decide)

/-- The second teller assigns an account. -/
theorem step_disturbed :
  TellerStep 1 ⟨stored 1, [⟨0, .processing 1⟩, ⟨1, .assigning⟩]⟩
    ⟨stored 2, [⟨0, .processing 1⟩, ⟨1, .processing 2⟩]⟩
  := .existing rfl (by decide) account_second (by decide)

/-- The first teller processes its request. -/
theorem step_processed (bId : Int) (i : Fin MAX_CLI) (hi : entry bId = some i) (pc : TellerPc) :
  TellerStep 0 ⟨stored bId, [⟨0, .processing 1⟩, ⟨1, pc⟩]⟩
    ⟨(stored bId).setAccount i (transact firstRequest ⟨i, 0, 0, 0⟩), [⟨0, .done⟩, ⟨1, pc⟩]⟩
  := by
  obtain ⟨outcome, ho, hshared⟩ := processTransaction_spec (s := stored bId) 0 hi
  have hstep := TellerStep.processed (k := 0)
    (x := ⟨stored bId, [⟨0, .processing 1⟩, ⟨1, pc⟩]⟩) rfl ho
  rw [hshared] at hstep
  exact hstep

/-- The first teller serves its client before the second one assigns an account. -/
theorem tellers_own_account_first :
  ((stored 1).setAccount 1 (transact firstRequest ⟨1, 0, 0, 0⟩)).accounts
    = Function.update ledger.accounts 1 (transact firstRequest (ledger.accounts 1))
  := by
  have hu : Undisturbed 0 ⟨stored 0, [⟨0, .assigning⟩, ⟨1, .assigning⟩]⟩ := by
    rintro idx ⟨⟩ id -
    have hid : id = 1 := account_first
    rw [hid]
    refine ⟨by decide, ?_⟩
    intro k' idx' own hk'
    have hmem := List.mem_of_getElem? hk'
    simp at hmem
  have hrun := run_verified.tail ⟨0, step_assigned, hu⟩
  have hu' : Undisturbed 0 ⟨stored 1, [⟨0, .processing 1⟩, ⟨1, .assigning⟩]⟩ := by
    rintro idx ⟨⟩
  have hown := tellers_own_account _ _ _ _ _ forked_stored hrun 0 _ (step_processed 1 1 rfl _) hu'
  obtain ⟨i, hi, haccounts⟩ := hown.own 0 1 rfl
  cases hi
  exact haccounts

/-- The second teller assigns an account before the first has served its client, and the
first changes the account of the second. -/
theorem teller_changes_another_account :
  ¬ ∀ s base batch x₀ x, forked s base batch = some x₀ →
    ReflTransGen (fun x x' => ∃ k, TellerStep k x x') x₀ x →
    ∀ k x', TellerStep k x x' → OwnAccount k x x'
  := by
  intro hall
  have hverified : ReflTransGen (fun x x' => ∃ k, TellerStep k x x') _ _ :=
    ReflTransGen.mono (fun _ _ ⟨k, h, _⟩ => ⟨k, h⟩) _ _ run_verified
  have hrun := (hverified.tail ⟨0, step_assigned⟩).tail ⟨1, step_disturbed⟩
  have hown := hall _ _ _ _ _ forked_stored hrun 0 _ (step_processed 2 2 rfl _)
  obtain ⟨i, hi, haccounts⟩ := hown.own 0 1 rfl
  cases hi
  have hsecond := congrFun haccounts 2
  exact absurd hsecond (by decide)

end Bank

end BankServer
