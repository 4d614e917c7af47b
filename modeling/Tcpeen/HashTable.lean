import Tcpeen.Library.RobinHood
import Tcpeen.Map

/-! hash_table.c, the table under map.c: open addressing with Robin Hood displacement and backward shift
deletion. Where memory ends below 2^32 slots it is the table that hash_table.h describes. -/
namespace Tcpeen.HashTable

open RobinHood Tcpeen.Map

/-- `hash_table_entry`; an entry whose hash code is 0 is an empty slot. -/
structure Entry where
  key : Pointer
  value : Pointer
  hashCode : UInt64
  deriving DecidableEq

/-- The fields of `hash_table_state` that a template computes. -/
structure Template where
  size : UInt64
  maxLoad : UInt64
  mask : UInt64
  deriving DecidableEq

/-- `hash_table_state`. `room` is how many slots the block has. -/
structure TableState extends Template where
  entryCount : UInt64
  room : Nat
  slots : Nat → Option Entry

/-- What a table is given: the hash function, and the size times 0.95 as floating point has it. -/
structure Env where
  hashFn : Pointer → UInt64
  load : UInt64 → UInt64

def awsOpSuccess : Int := 0

def awsOpErr : Int := -1

def sHashFor (env : Env) (key : Pointer) : UInt64 :=
  let hashCode := env.hashFn key
  if hashCode = 0 then 1 else hashCode

/-- A slot; none for one outside the block. -/
def TableState.slot (s : TableState) (i : Nat) : Option (Option Entry) := if i < s.room then some (s.slots i) else none

def TableState.store (s : TableState) (i : Nat) (e : Option Entry) : TableState :=
  { s with slots := Function.update s.slots i e }

/-- The slot that a search for `hashCode` sees at a probe. -/
def Template.index (t : Template) (hashCode : UInt64) (probe : Nat) : Nat :=
  ((hashCode + UInt64.ofNat probe) &&& t.mask).toNat

/-- At which probe a search would come to the entry in a slot. -/
def Template.entryProbe (t : Template) (i : Nat) (e : Entry) : Nat := ((UInt64.ofNat i - e.hashCode) &&& t.mask).toNat

/-! ### Sizes -/

/-- The loop of `s_update_template_size`; none for the overflow. -/
def sizeLoop (minSize : UInt64) : Nat → UInt64 → UInt64 → Option (UInt64 × UInt64)
  | 0, _, _ => none
  | fuel + 1, size, mask =>
    if size < minSize then
      if size <<< 1 = 0 then none else sizeLoop minSize fuel (size <<< 1) (mask <<< 1)
    else some (size, mask)

/-- `s_update_template_size`; the callers look at the template only. -/
def sUpdateTemplateSize (env : Env) (template : Template) (expectedElements : UInt64) : Template :=
  let minSize := if expectedElements < 2 then 2 else expectedElements
  match sizeLoop minSize 64 1 (~~~ 0) with
  | none => template
  | some (size, mask) =>
    let maxLoad := env.load size
    let maxLoad := if maxLoad ≥ size then size - 1 else maxLoad
    -- an entry takes 24 bytes and the state 104
    if size.toNat * 24 ≥ 2 ^ 64 - 1 ∨ size.toNat * 24 + 104 ≥ 2 ^ 64 then { template with size, maxLoad }
    else ⟨size,maxLoad,~~~ mask⟩

/-- How many slots `s_alloc_state` asks for beside the one in the state: `aws_mul_size_checked` takes its factors
as 32-bit words. -/
def extraSlots (size : UInt64) : UInt32 := (size - 1).toUInt32

def allocSize (size : UInt64) : UInt64 := (extraSlots size).toUInt64 * 24 + 104

/-- The blocks that the allocator grants at a call. It has no room for a table of 2^32 slots; larger ones ask for
no more than that. -/
structure Memory where
  grants : UInt64 → Bool
  small : grants (allocSize 4294967296) = false

def sAllocState (memory : Memory) (template : Template) (entryCount : UInt64) : Option TableState :=
  if memory.grants (allocSize template.size) then
    some { template with entryCount, room := (extraSlots template.size).toNat + 1, slots := fun _ => none }
  else none

/-- `aws_hash_table_init`; `stack` is what the template holds before. -/
def awsHashTableInit (env : Env) (memory : Memory) (stack : Template) (size : UInt64) : Int × Option TableState :=
  match sAllocState memory (sUpdateTemplateSize env stack size) 0 with
  | none => (awsOpErr, none)
  | some s => (awsOpSuccess, some s)

/-! ### Searches -/

/-- The loop of `s_find_entry1`: whether the key is there, the slot and the probe. -/
def sFindEntry1 (s : TableState) (hashCode : UInt64) (key : Pointer) : Nat → Nat → Option (Bool × Nat × Nat)
  | 0, _ => none
  | fuel + 1, probe =>
    let index := s.index hashCode probe
    match s.slot index with
    | none => none
    | some none => some (false, index, probe)
    | some (some e) =>
      if e.hashCode = hashCode ∧ e.key = key then some (true, index, probe)
      else if s.entryProbe index e < probe then some (false, index, probe)
      else sFindEntry1 s hashCode key fuel (probe + 1)

/-- `s_find_entry`, with the first slot looked at in front of the loop. -/
def sFindEntry (s : TableState) (hashCode : UInt64) (key : Pointer) : Option (Bool × Nat × Nat) :=
  let index := (hashCode &&& s.mask).toNat
  match s.slot index with
  | none => none
  | some none => some (false, index, 0)
  | some (some e) =>
    if e.hashCode = hashCode ∧ e.key = key then some (true, index, 0)
    else sFindEntry1 s hashCode key s.size.toNat 1

/-- `aws_hash_table_find`: the value of the element, if there is one. -/
def awsHashTableFind (env : Env) (s : TableState) (key : Pointer) : Option (Int × Option Pointer) := do
  let (found, index, _) ← sFindEntry s (sHashFor env key) key
  some (awsOpSuccess, if found then (s.slots index).map Entry.value else none)

/-! ### Insertion -/

/-- `s_emplace_item` and the slot of the first placement. -/
def sEmplaceItem : Nat → TableState → Entry → Nat → Option Nat → Option (TableState × Nat)
  | 0, _, _, _, _ => none
  | fuel + 1, s, entry, probe, initial =>
    let index := s.index entry.hashCode probe
    match s.slot index with
    | none => none
    | some none => some (s.store index (some entry), initial.getD index)
    | some (some victim) =>
      let victimProbe := s.entryProbe index victim
      if victimProbe < probe then
        sEmplaceItem fuel (s.store index (some entry)) victim (victimProbe + 1) (some (initial.getD index))
      else sEmplaceItem fuel s entry (probe + 1) initial

/-- One turn of the loop of `s_expand_table`. -/
def moveSlot (old new : TableState) (i : Nat) : Option TableState := do
  match ← old.slot i with
  | none => some new
  | some entry => (sEmplaceItem new.size.toNat new entry 0 none).map Prod.fst

def sExpandTable (env : Env) (memory : Memory) (s : TableState) : Option (Int × TableState) :=
  match sAllocState memory (sUpdateTemplateSize env s.toTemplate (s.size * 2)) s.entryCount with
  | none => some (awsOpErr, s)
  | some new => ((List.range s.size.toNat).foldlM (moveSlot s) new).map fun new => (awsOpSuccess, new)

/-- What `aws_hash_table_create` leaves: its code, the table, the slot of the element and `was_created`. -/
structure Created where
  code : Int
  state : TableState
  elem : Nat
  created : Int

/-- The end of `aws_hash_table_create`. -/
def addEntry (s : TableState) (entry : Entry) (probe : Nat) : Option Created :=
  (sEmplaceItem s.size.toNat { s with entryCount := s.entryCount + 1 } entry probe none).map fun (s, elem) =>
    ⟨awsOpSuccess,s,elem,1⟩

def awsHashTableCreate (env : Env) (memory : Memory) (s : TableState) (key : Pointer) : Option Created := do
  let hashCode := sHashFor env key
  let (found, index, probe) ← sFindEntry s hashCode key
  if found then some ⟨awsOpSuccess,s,index,0⟩
  else if s.entryCount + 1 > s.maxLoad then
    let (code, s) ← sExpandTable env memory s
    if code ≠ awsOpSuccess then some ⟨code,s,index,0⟩ else addEntry s ⟨key,0,hashCode⟩ 0
  else addEntry s ⟨key,0,hashCode⟩ probe

/-- `aws_hash_table_put` for a table without destructors. -/
def awsHashTablePut (env : Env) (memory : Memory) (s : TableState) (key value : Pointer) :
    Option (Int × TableState × Int) := do
  let c ← awsHashTableCreate env memory s key
  if c.code ≠ awsOpSuccess then some (awsOpErr, c.state, c.created)
  else some (awsOpSuccess, c.state.store c.elem ((c.state.slots c.elem).map fun e => { e with key, value }), c.created)

/-! ### Deletion -/

/-- The loop of `s_remove_entry`. -/
def removeLoop : Nat → TableState → Nat → Option TableState
  | 0, _, _ => none
  | fuel + 1, s, index =>
    let next := ((UInt64.ofNat index + 1) &&& s.mask).toNat
    match s.slot next with
    | none => none
    | some none => some (s.store index none)
    | some (some e) =>
      if (e.hashCode &&& s.mask).toNat = next then some (s.store index none)
      else removeLoop fuel (s.store index (some e)) next

def sRemoveEntry (s : TableState) (index : Nat) : Option TableState :=
  removeLoop s.size.toNat { s with entryCount := s.entryCount - 1 } index

/-- `aws_hash_table_remove` for a table without destructors. -/
def awsHashTableRemove (env : Env) (s : TableState) (key : Pointer) : Option (Int × TableState × Int) := do
  let (found, index, _) ← sFindEntry s (sHashFor env key) key
  if found then (sRemoveEntry s index).map fun s => (awsOpSuccess, s, 1)
  else some (awsOpSuccess, s, 0)

def awsHashTableClear (s : TableState) : TableState := { s with slots := fun _ => none, entryCount := 0 }

end Tcpeen.HashTable
