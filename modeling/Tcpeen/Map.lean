import Mathlib.Logic.Function.Basic

/-! map.c over the table of hash_table.c, which is known by its description in hash_table.h. A map
is meant to be a finite map whose keys are set once. -/
namespace Tcpeen.Map

section InsertOnly

variable {K V : Type} [DecidableEq K]

inductive Op (K V : Type)
  | get (key : K)
  | set (key : K) (value : V)
  | remove (key : K)
  | clear
  deriving DecidableEq, Repr

/-- What a call returns; `tn_map_clear` returns nothing. -/
inductive Reply (V : Type)
  | success
  | found (value : V)
  | error
  deriving DecidableEq, Repr

/-- The map that the calls describe. -/
def insertOnly (m : K → Option V) : Op K V → Reply V × (K → Option V)
  | .get key =>
    match m key with
    | some value => (.found value, m)
    | none => (.error, m)
  | .set key value =>
    match m key with
    | some _ => (.error, m)
    | none => (.success, Function.update m key (some value))
  | .remove key =>
    match m key with
    | some _ => (.success, Function.update m key none)
    | none => (.error, m)
  | .clear => (.success, fun _ => none)

end InsertOnly

/-- Keys and values are pointers. -/
abbrev Pointer := UInt64

/-- The functions of hash_table.c that map.c calls. A call returns 0 for success; `contents` is what
a table holds. A put into a table without the key may find no memory to grow. -/
structure HashTable where
  Table : Type
  contents : Table → Pointer → Option Pointer
  init : UInt64 → Int × Table
  find : Table → Pointer → Int × Option Pointer
  put : Table → Pointer → Pointer → Int × Table × Int
  remove : Table → Pointer → Int × Table × Int
  clear : Table → Table
  init_empty : ∀ size, (init size).1 = 0 → contents (init size).2 = fun _ => none
  find_value : ∀ t key, find t key = (0, contents t key)
  put_present : ∀ t key value, contents t key ≠ none → ∃ t', put t key value = (0, t', 0) ∧
    contents t' = Function.update (contents t) key (some value)
  put_absent : ∀ t key value, contents t key = none →
    (∃ t', put t key value = (0, t', 1) ∧ contents t' = Function.update (contents t) key (some value)) ∨
      ∃ t' created, put t key value = (-1, t', created) ∧ contents t' = contents t
  remove_present : ∀ t key, contents t key ≠ none → ∃ t', remove t key = (0, t', 1) ∧
    contents t' = Function.update (contents t) key none
  remove_absent : ∀ t key, contents t key = none → ∃ t', remove t key = (0, t', 0) ∧ contents t' = contents t
  clear_empty : ∀ t, contents (clear t) = fun _ => none

/-- The `priv` of a map: null, memory that has been released, or a table. -/
inductive Priv (T : Type)
  | null
  | released
  | table (t : T)

/-- `tn_map_t`. -/
structure TnMap (T : Type) where
  priv : Priv T
  capacity : UInt64

def tnSuccess : Int := 0

def tnError : Int := -1

variable {api : HashTable}

/-- `tn_map_setup`; `memory` says that there is memory for the table's structure. The guard takes
the 0 of a success for a null pointer, and behind it stands no return. -/
def tnMapSetup (api : HashTable) (memory : Bool) (capacity : UInt64) : Int × TnMap api.Table :=
  let map : TnMap api.Table := ⟨.null, capacity⟩
  if !memory then (tnError, map)
  else if (api.init capacity).1 = 0 then (tnError, map)
  else (tnError, { map with priv := .released })

/-- `tn_map_get` and the value it stores; `none` is a failed assertion or released memory. -/
def tnMapGet (map : TnMap api.Table) (key : Pointer) : Option (Int × Pointer) :=
  match map.priv with
  | .table t =>
    match api.find t key with
    | (0, some value) => some (tnSuccess, value)
    | _ => some (tnError, 0)
  | _ => none

def tnMapSet (map : TnMap api.Table) (key value : Pointer) : Option (Int × TnMap api.Table) :=
  match map.priv with
  | .table t =>
    if value = 0 then none
    else
      let (ret, t, created) := api.put t key value
      let map := { map with priv := .table t }
      if ret ≠ 0 then some (tnError, map) else if created = 0 then some (tnError, map) else some (tnSuccess, map)
  | _ => none

def tnMapRemove (map : TnMap api.Table) (key : Pointer) : Option (Int × TnMap api.Table) :=
  match map.priv with
  | .table t =>
    let (ret, t, removed) := api.remove t key
    let map := { map with priv := .table t }
    if ret ≠ 0 then some (tnError, map) else if removed = 0 then some (tnError, map) else some (tnSuccess, map)
  | _ => none

def tnMapClear (map : TnMap api.Table) : Option (TnMap api.Table) :=
  match map.priv with
  | .table t => some { map with priv := .table (api.clear t) }
  | _ => none

/-- The reply of a call that returns a code. -/
def reply (code : Int) : Reply Pointer := if code = tnSuccess then .success else .error

def call (map : TnMap api.Table) : Op Pointer Pointer → Option (Reply Pointer × TnMap api.Table)
  | .get key => (tnMapGet map key).map fun (code, value) => (if code = tnSuccess then .found value else .error, map)
  | .set key value => (tnMapSet map key value).map fun (code, map) => (reply code, map)
  | .remove key => (tnMapRemove map key).map fun (code, map) => (reply code, map)
  | .clear => (tnMapClear map).map fun map => (.success, map)

/-- Every call replies as the insert-only map does and leaves what it leaves. -/
def Agrees (map : TnMap api.Table) (m : Pointer → Option Pointer) : List (Op Pointer Pointer) → Prop
  | [] => True
  | op :: rest => ∃ map' t', call map op = some ((insertOnly m op).1, map') ∧ map'.priv = .table t' ∧
      api.contents t' = (insertOnly m op).2 ∧ Agrees map' (insertOnly m op).2 rest

/-- Setup succeeds and leaves an empty map, and from there on the calls agree. -/
structure Refines (api : HashTable) (memory : Bool) (capacity : UInt64) (ops : List (Op Pointer Pointer)) :
    Prop where
  success : (tnMapSetup api memory capacity).1 = tnSuccess
  usable : ∃ t, (tnMapSetup api memory capacity).2.priv = .table t ∧ api.contents t = fun _ => none
  agrees : Agrees (tnMapSetup api memory capacity).2 (fun _ => none) ops

/-- A set finds its key absent and memory for it, or the same value present. -/
def Allowed (t : api.Table) (m : Pointer → Option Pointer) : Op Pointer Pointer → Prop
  | .set key value => value ≠ 0 ∧ (m key = some value ∨ m key = none ∧ (api.put t key value).1 = 0)
  | _ => True

/-- All sets of a run are such. -/
def Once (map : TnMap api.Table) (m : Pointer → Option Pointer) : List (Op Pointer Pointer) → Prop
  | [] => True
  | op :: rest => (∀ t, map.priv = .table t → Allowed t m op) ∧
      ∀ r map', call map op = some (r, map') → Once map' (insertOnly m op).2 rest

section Calls

variable {map : TnMap api.Table} {t : api.Table} {m : Pointer → Option Pointer}

/-- One call on a table replies and leaves what the insert-only map does. -/
def Matches (map : TnMap api.Table) (m : Pointer → Option Pointer) (op : Op Pointer Pointer) : Prop :=
  ∃ map' t', call map op = some ((insertOnly m op).1, map') ∧ map'.priv = .table t' ∧
    api.contents t' = (insertOnly m op).2

theorem get_matches (table : map.priv = .table t) (holds : api.contents t = m) (key : Pointer) :
    Matches map m (.get key) := by
  cases value : m key with
  | none =>
    refine ⟨map,t,?_,table,?_⟩
    · simp [call,tnMapGet,table,api.find_value,holds,value,insertOnly,tnSuccess,tnError]
    · simpa [insertOnly,value] using holds
  | some v =>
    refine ⟨map,t,?_,table,?_⟩
    · simp [call,tnMapGet,table,api.find_value,holds,value,insertOnly,tnSuccess]
    · simpa [insertOnly,value] using holds

theorem remove_matches (table : map.priv = .table t) (holds : api.contents t = m) (key : Pointer) :
    Matches map m (.remove key) := by
  cases value : m key with
  | none =>
    obtain ⟨t',removed,same⟩ := api.remove_absent t key (by rw [holds,value])
    refine ⟨{ map with priv := .table t' },t',?_,rfl,?_⟩
    · simp [call,tnMapRemove,table,removed,value,insertOnly,reply,tnSuccess,tnError]
    · simpa [insertOnly,value,holds] using same
  | some v =>
    obtain ⟨t',removed,same⟩ := api.remove_present t key (by rw [holds,value]; simp)
    refine ⟨{ map with priv := .table t' },t',?_,rfl,?_⟩
    · simp [call,tnMapRemove,table,removed,value,insertOnly,reply,tnSuccess]
    · simpa [insertOnly,value,holds] using same

theorem clear_matches (table : map.priv = .table t) : Matches map m .clear :=
  ⟨{ map with priv := .table (api.clear t) },api.clear t,by simp [call,tnMapClear,table,insertOnly],rfl,
    api.clear_empty t⟩

/-- A set of a present key fails and puts its value in place all the same. -/
theorem set_matches_iff (table : map.priv = .table t) (holds : api.contents t = m) (key value : Pointer) :
    Matches map m (.set key value) ↔ Allowed t m (.set key value) := by
  by_cases zero : value = 0
  · refine iff_of_false ?_ fun allowed => allowed.1 zero
    rintro ⟨map',t',called,-⟩
    simp [call,tnMapSet,table,zero] at called
  cases given : m key with
  | some old =>
    obtain ⟨t',put,after⟩ := api.put_present t key value (by rw [holds,given]; simp)
    have called : call map (.set key value) = some (.error,{ map with priv := .table t' }) := by
      simp [call,tnMapSet,table,zero,put,reply,tnSuccess,tnError]
    rw [holds] at after
    simp only [Matches,insertOnly,given,called,Allowed,reduceCtorEq,false_and,or_false,Option.some.injEq]
    constructor
    · rintro ⟨map',t'',same,table',kept⟩
      obtain ⟨-,rfl⟩ := Prod.mk.inj same
      obtain rfl := Priv.table.inj table'
      have here := congrFun (after.symm.trans kept) key
      rw [Function.update_self,given] at here
      exact ⟨zero,(Option.some.inj here).symm⟩
    · rintro ⟨-,rfl⟩
      exact ⟨_,t',rfl,rfl,after.trans (by rw [← given,Function.update_eq_self])⟩
  | none =>
    rcases api.put_absent t key value (by rw [holds,given]) with ⟨t',put,after⟩ | ⟨t',created,put,same⟩
    · refine iff_of_true ⟨{ map with priv := .table t' },t',?_,rfl,?_⟩ ⟨zero,.inr ⟨given,by rw [put]⟩⟩
      · simp [call,tnMapSet,table,zero,put,given,insertOnly,reply,tnSuccess]
      · simpa [insertOnly,given,holds] using after
    · refine iff_of_false ?_ ?_
      · rintro ⟨map',t'',called,-⟩
        simp [call,tnMapSet,table,zero,put,given,insertOnly,reply,tnSuccess,tnError] at called
      · rintro ⟨-,present | ⟨-,success⟩⟩
        · rw [given] at present
          contradiction
        · rw [put] at success
          contradiction

theorem matches_iff (table : map.priv = .table t) (holds : api.contents t = m) (op : Op Pointer Pointer) :
    Matches map m op ↔ Allowed t m op := by
  cases op with
  | get key => exact iff_of_true (get_matches table holds key) trivial
  | set key value => exact set_matches_iff table holds key value
  | remove key => exact iff_of_true (remove_matches table holds key) trivial
  | clear => exact iff_of_true (clear_matches table) trivial

theorem agrees_iff (ops : List (Op Pointer Pointer)) (table : map.priv = .table t) (holds : api.contents t = m) :
    Agrees map m ops ↔ Once map m ops := by
  induction ops generalizing map t m with
  | nil => exact Iff.rfl
  | cons op rest ih =>
    constructor
    · rintro ⟨map',t',called,table',holds',later⟩
      refine ⟨fun u here => ?_,fun r map'' called' => ?_⟩
      · obtain rfl := Priv.table.inj (table.symm.trans here)
        exact (matches_iff table holds op).mp ⟨map',t',called,table',holds'⟩
      · obtain ⟨-,rfl⟩ := Prod.mk.inj (Option.some.inj (called.symm.trans called'))
        exact (ih table' holds').mp later
    · rintro ⟨allowed,later⟩
      obtain ⟨map',t',called,table',holds'⟩ := (matches_iff table holds op).mpr (allowed t table)
      exact ⟨map',t',called,table',holds',(ih table' holds').mpr (later _ map' called)⟩

end Calls

/-- No setup leaves a map. From a table that holds what it should, the calls of a run agree with the
insert-only map exactly where no set replaces a value or lacks memory. -/
theorem map_refines_never (api : HashTable) :
    (∀ memory capacity ops, ¬ Refines api memory capacity ops) ∧
      ∀ (map : TnMap api.Table) t ops, map.priv = .table t →
        (Agrees map (api.contents t) ops ↔ Once map (api.contents t) ops) := by
  refine ⟨fun memory capacity ops refines => ?_,fun map t ops table => agrees_iff ops table rfl⟩
  have failed : (tnMapSetup api memory capacity).1 = tnError := by
    rw [tnMapSetup]
    split
    · rfl
    · split <;> rfl
  exact absurd (failed.symm.trans refines.success) (by decide)

/-- A table that is its contents. -/
def plainTable : HashTable where
  Table := Pointer → Option Pointer
  contents := id
  init := fun _ => (0,fun _ => none)
  find := fun t key => (0,t key)
  put := fun t key value => (0,Function.update t key (some value),if t key = none then 1 else 0)
  remove := fun t key => (0,Function.update t key none,if t key = none then 0 else 1)
  clear := fun _ _ => none
  init_empty := fun _ _ => rfl
  find_value := fun _ _ => rfl
  put_present := fun t key value present =>
    ⟨Function.update t key (some value),by rw [if_neg (show t key ≠ none from present)],rfl⟩
  put_absent := fun t key value absent =>
    .inl ⟨Function.update t key (some value),by rw [if_pos (show t key = none from absent)],rfl⟩
  remove_present := fun t key present =>
    ⟨Function.update t key none,by rw [if_neg (show t key ≠ none from present)],rfl⟩
  remove_absent := fun t key absent =>
    ⟨Function.update t key none,by rw [if_pos (show t key = none from absent)],by
      rw [id,← show t key = none from absent,Function.update_eq_self]
      rfl⟩
  clear_empty := fun _ => rfl

theorem map_refines_never_plain :
    ¬ Refines plainTable true 16 [.get 1] ∧
      ∃ map : TnMap plainTable.Table, map.priv = .table (fun _ => none) ∧
        Agrees map (fun _ => none) [.set 1 5,.get 1,.remove 1,.set 1 6] := by
  have never := map_refines_never plainTable
  refine ⟨never.1 true 16 [.get 1],⟨.table fun _ => none,16⟩,rfl,?_⟩
  refine (never.2 ⟨.table fun _ => none,16⟩ (fun _ => none) _ rfl).mpr ?_
  refine ⟨fun _ _ => ⟨by decide,.inr ⟨rfl,rfl⟩⟩,fun _ _ _ => ⟨fun _ _ => trivial,fun _ _ _ =>
    ⟨fun _ _ => trivial,fun _ _ _ => ⟨fun _ _ => ⟨by decide,.inr ⟨?_,rfl⟩⟩,fun _ _ _ => trivial⟩⟩⟩⟩
  decide

/-- With memory and a table the setup fails; on a table, the second set of a key fails and a get
then finds its value. -/
theorem setup_fails :
    tnMapSetup plainTable true 16 = (tnError,⟨.null,16⟩) ∧ ¬ Refines plainTable true 16 [] ∧
    ∃ map : TnMap plainTable.Table, map.priv = .table (Function.update (fun _ => none) 1 (some 5)) ∧
      ∃ map', tnMapSet map 1 6 = some (tnError, map') ∧ tnMapGet map' 1 = some (tnSuccess, 6) := by
  refine ⟨rfl,fun refines => absurd refines.success (by decide),⟨.table _,16⟩,rfl,_,rfl,rfl⟩

end Tcpeen.Map
