import Homeworks.CString.Number
import Mathlib.Algebra.GroupWithZero.Nat

/-!
# The bank server

The shared memory of the bank server, and what its tellers do with it.  A region between
`sem_wait` and `sem_post` of `sh_lock` is a function.  A store outside of an array has no
result.
-/

namespace BankServer

abbrev MAX_CLI : Nat := 1000

instance : NeZero MAX_CLI := ⟨by decide⟩

abbrev MAX_REQ : Nat := 1000

/-- A C string; a character stands for one byte. -/
abbrev Text := List Char

/-- The bytes of a request: the arrays `id`, `op` and `credit` of 32 bytes and the array
`fifo` of 64. -/
structure Request where
  bytes : List Char
  length_eq : bytes.length = 160

namespace Request

/-- The string at an offset. -/
def string (r : Request) (offset : Nat) : Text := CString.string (r.bytes.drop offset)

def id (r : Request) : Text := r.string 0

/-- The string at `id + 7`. -/
def number (r : Request) : Text := r.string 7

def op (r : Request) : Text := r.string 32

def credit (r : Request) : Text := r.string 64

def fifo (r : Request) : Text := r.string 96

/-- A string in an array that is otherwise zero. -/
def field (n : Nat) (s : String) : List Char := (s.toList ++ List.replicate n '\x00').take n

theorem length_field (n : Nat) (s : String) :
  (field n s).length = n
  := by
  rw [field, List.length_take, List.length_append, List.length_replicate]
  apply Nat.min_eq_left (Nat.le_add_left _ _)

/-- A request with strings in its arrays. -/
def of (id op credit fifo : String) : Request where
  bytes := field 32 id ++ field 32 op ++ field 32 credit ++ field 64 fifo
  length_eq := by simp only [List.length_append, length_field]

end Request

/-- A row of the table of accounts. -/
structure Account where
  id : Int
  deposited : Int
  withdrawn : Int
  balance : Int
  deriving DecidableEq

structure Shared where
  requests : Fin MAX_REQ → Request
  accounts : Fin MAX_CLI → Account
  active : Int
  bId : Int

/-- The reply that a client gets. -/
inductive Reply where
  | served (client : Nat) (id : Int)
  | accountClosed (client : Nat) (id : Int)
  | invalidId (client : Nat) (id : Int)
  | somethingWrong (client : Nat)
  | servedSomethingWrong (client : Nat)
  deriving DecidableEq

/-- What the server prints of a request. -/
inductive Response where
  | deposited (client : Nat) (amount : Int)
  | withdraws (client : Nat) (amount : Int)
  | withdrawsBye (client : Nat) (amount : Int)
  | notPermitted (client : Nat) (amount : Int)
  | somethingWrong (client : Nat) (op : Text) (amount : Int)
  deriving DecidableEq

/-- The result of `process_transaction`; the amount is put down if it is served. -/
structure Outcome where
  shared : Shared
  served : Bool
  reply : Reply
  response : Response

namespace Shared

def setAccount (s : Shared) (i : Fin MAX_CLI) (a : Account) : Shared :=
  { s with accounts := Function.update s.accounts i a }

end Shared

/-- The row of an account, if there is one. -/
def entry (id : Int) : Option (Fin MAX_CLI) :=
  if h : 0 ≤ id ∧ id < MAX_CLI then
    some ⟨id.toNat, by omega⟩
  else
    none

/-! ### Tellers -/

def isNumeric (s : Text) : Bool := s.all Char.isDigit

def verify (r : Request) : Int :=
  if r.op.length = 0 ∨ r.credit.length = 0 ∨ r.id.length = 0 ∨ r.fifo.length = 0 then
    -2
  else if r.op ≠ "deposit".toList ∧ r.op ≠ "withdraw".toList then
    -3
  else if !isNumeric r.credit then
    -3
  else if CString.atoi r.credit < 0 then
    -4
  else if r.number = "None".toList then
    -5
  else
    0

/-- The account that `assign_bankid` assigns to a request. -/
def account (s : Shared) (r : Request) : Int :=
  if r.id = "N".toList then CString.int (s.active + 1) else CString.atoi r.number

/-- What `assign_bankid` does; a teller whose client has an invalid account exits. -/
def assignBankid (s : Shared) (idx : Fin MAX_REQ) : Option (Except Reply Shared) :=
  let r := s.requests idx
  let id := account s r
  if r.id = "N".toList then
    match entry id with
    | some i =>
        some (.ok { s.setAccount i { s.accounts i with id := id, balance := 0 } with
          active := id
          bId := id })
    | none => none
  else if id < 0 ∨ id > s.active then
    some (.error (.invalidId (idx + 1) id))
  else
    some (.ok { s with bId := id })

def processTransaction (s : Shared) (idx : Fin MAX_REQ) (isDeposit : Bool) : Option Outcome :=
  let r := s.requests idx
  let amount := CString.atoi r.credit
  let id := s.bId
  match entry id with
  | none => none
  | some i =>
      let a := s.accounts i
      if isDeposit then
        some {
          shared := s.setAccount i { a with
            balance := CString.int (a.balance + amount)
            deposited := CString.int (a.deposited + amount) }
          served := true
          reply := .served (idx + 1) id
          response := .deposited (idx + 1) amount }
      else if a.balance ≥ amount then
        let balance := CString.int (a.balance - amount)
        some {
          shared := s.setAccount i { a with
            balance := balance
            withdrawn := CString.int (a.withdrawn + amount) }
          served := true
          reply :=
            if balance = 0 then .accountClosed (idx + 1) id else .served (idx + 1) id
          response :=
            if balance = 0 then
              .withdrawsBye (idx + 1) amount
            else
              .withdraws (idx + 1) amount }
      else
        some {
          shared := s
          served := false
          reply := .somethingWrong (idx + 1)
          response := .notPermitted (idx + 1) amount }

/-- The task that `bank_loop` chooses for a request. -/
def isDeposit (r : Request) : Bool := r.op = "deposit".toList

/-- What a teller replies and prints if its request is not verified. -/
def rejection (s : Shared) (idx : Fin MAX_REQ) : Reply × Response :=
  let r := s.requests idx
  (.servedSomethingWrong (idx + 1), .somethingWrong (idx + 1) r.op (CString.atoi r.credit))

/-- What `bank_loop` does with a batch of requests before there are tellers for them. -/
def storeRequests (s : Shared) (base : Nat) (batch : List Request) : Option Shared :=
  if base + batch.length ≤ MAX_REQ then
    some { s with requests := fun idx =>
      if base ≤ idx then batch.getD (idx - base) (s.requests idx) else s.requests idx }
  else
    none

end BankServer
