import OrderedIndex.Proofs.Master.Contents

namespace OrderedIndex

/-!
# Runs of a master table

Calls of a master table are made one after the other, each over a host that may
have changed in any way since the last.  What a call can do is said once; that a
table stays sound and what its sequence becomes follow from it.
-/

variable {Value : Type}

/-- The calls that change a master table or its snapshot file. -/
inductive MasterCall (Value : Type) where
  | nextId
  | put (id : UInt64) (entry : Value)
  | delete (id : UInt64)
  | setProperty (name value : String)
  | sync
  deriving Repr, DecidableEq

/-- The answer of a call. -/
inductive MasterAnswer where
  | allotted (answer : Except IndexError UInt64)
  | stored (answer : Except IndexError Unit)
  | deleted (answer : Except IndexError Bool)
  | noted
  | synced (answer : Except IndexError Unit)

/-- A call with its answer. -/
structure MasterEvent (Value : Type) where
  call : MasterCall Value
  answer : MasterAnswer

/-- Make a call. -/
def MasterCall.perform (master : MasterTable Value) :
    MasterCall Value → HostM (MasterAnswer × MasterTable Value)
  | .nextId => return (.allotted master.nextId.1, master.nextId.2)
  | .put id entry => do
      let (answer, after) ← Host.onBackend (master.put id entry)
      return (.stored answer, after)
  | .delete id => do
      let (answer, after) ← Host.onBackend (master.delete id)
      return (.deleted answer, after)
  | .setProperty name value => return (.noted, master.setProperty name value)
  | .sync => return (.synced (← master.sync), master)

namespace MasterTable

variable
  {config : MasterTableConfig}
  {codec : Codec Value}
  {start master : MasterTable Value}
  {history : List (MasterEvent Value)}

/-- Calls made one after the other, each over some host, with what has become of the table. -/
inductive Ran (start : MasterTable Value) :
    List (MasterEvent Value) → MasterTable Value → Prop where
  | started : Ran start [] start
  | called
      {history : List (MasterEvent Value)}
      {master : MasterTable Value}
      (ran : Ran start history master)
      (call : MasterCall Value)
      (host : Host) :
      Ran start (history ++ [⟨call, (call.perform master host).1.1⟩])
        (call.perform master host).1.2

/-- What a call of a sound table answers and makes of it. -/
inductive Becomes (master : MasterTable Value) :
    MasterCall Value → MasterAnswer → MasterTable Value → Prop where
  | allotted (more : master.sequence ≠ lastId) :
      Becomes master .nextId (.allotted (.ok (master.sequence + 1)))
        { master with sequence := master.sequence + 1 }
  | exhausted (last : master.sequence = lastId) :
      Becomes master .nextId (.allotted (.error (.idsExhausted master.table.name))) master
  | stored
      {id : UInt64}
      {entry : Value}
      {changed : Table UInt64 Value}
      {answer : Except IndexError Bool}
      (became :
        master.table.Became
          (.ok (master.table.spec.put master.table.groups id entry).1,
            (master.table.spec.put master.table.groups id entry).2)
          (answer, changed)) :
      Becomes master (.put id entry) (.stored (.ok ()))
        { master with table := changed, sequence := max master.sequence id }
  | deleted
      {id : UInt64}
      {changed : Table UInt64 Value}
      {answer : Except IndexError Bool}
      (became :
        master.table.Became
          (.ok (master.table.spec.remove master.table.groups id).1,
            (master.table.spec.remove master.table.groups id).2)
          (answer, changed)) :
      Becomes master (.delete id) (.deleted answer) { master with table := changed }
  | noted (name value : String) :
      Becomes master (.setProperty name value) .noted (master.setProperty name value)
  | synced (answer : Except IndexError Unit) :
      Becomes master .sync (.synced answer) master

/-- The next identifier is the next number, unless the last has been reached. -/
theorem toNat_add_one
    {id : UInt64}
    (more : id ≠ lastId) :
    (id + 1).toNat = id.toNat + 1 := by
  have bounded := id.toNat_lt
  have different : id.toNat ≠ lastId.toNat := mt UInt64.toNat_inj.mp more
  have last_eq : lastId.toNat = 2 ^ 64 - 1 := rfl
  have fits : id.toNat + 1 < 2 ^ 64 := by
    omega
  rw [UInt64.toNat_add]
  exact Nat.mod_eq_of_lt fits

theorem le_add_one
    {id : UInt64}
    (more : id ≠ lastId) :
    id ≤ id + 1 := by
  rw [UInt64.le_iff_toNat_le, toNat_add_one more]
  exact Nat.le_succ _

namespace Sound

/-- Whatever the host is like, a call of a sound table does one of these. -/
theorem becomes
    (sound : Sound config codec master)
    (call : MasterCall Value)
    (host : Host) :
    master.Becomes call (call.perform master host).1.1 (call.perform master host).1.2 := by
  cases call with
  | nextId =>
      change master.Becomes .nextId (.allotted master.nextId.1) master.nextId.2
      unfold nextId
      by_cases last : master.sequence = lastId
      · rw [if_pos last]
        exact .exhausted last
      · rw [if_neg last]
        exact .allotted last
  | put id entry =>
      obtain ⟨answer, changed, put_eq, became⟩ :=
        sound.table.apply_unique sound.kind_eq (.put id entry)
      have answer_eq := became.answer_eq
      dsimp only [TableChange.applyToMap] at answer_eq
      subst answer_eq
      have performed :
          (MasterCall.perform master (.put id entry) host).1 =
            (.stored (.ok ()),
              { master with table := changed, sequence := max master.sequence id }) := by
        rw [TableChange.apply] at put_eq
        rw [MasterCall.perform, MasterTable.put, put_eq]
        rfl
      rw [performed]
      exact .stored became
  | delete id =>
      obtain ⟨answer, changed, remove_eq, became⟩ :=
        sound.table.apply_unique sound.kind_eq (.remove id)
      have performed :
          (MasterCall.perform master (.delete id) host).1 =
            (.deleted answer, { master with table := changed }) := by
        rw [TableChange.apply] at remove_eq
        rw [MasterCall.perform, MasterTable.delete, remove_eq]
        rfl
      rw [performed]
      exact .deleted became
  | setProperty name value =>
      exact .noted name value
  | sync =>
      exact .synced (master.sync host).1

/-- Every call keeps a table sound. -/
theorem of_becomes
    (sound : Sound config codec master)
    {call : MasterCall Value}
    {answer : MasterAnswer}
    {after : MasterTable Value}
    (becomes : master.Becomes call answer after) :
    Sound config codec after := by
  cases becomes with
  | allotted more =>
      refine { sound with stored_le := ?_ }
      intro pair member
      exact UInt64.le_trans (sound.stored_le pair member) (le_add_one more)
  | exhausted last =>
      exact sound
  | @stored id entry changed answer became =>
      refine { sound with
        table := became.sound
        spec_eq := became.spec_eq.trans sound.spec_eq
        stored_le := ?_ }
      intro pair member
      have groups_eq : changed.groups = _ := became.groups_eq
      rw [groups_eq] at member
      rcases TableSpec.mem_put member with isKey | ⟨old, oldMember, same⟩
      · rw [isKey]
        exact le_max_of_le_right _ (UInt64.le_refl id)
      · rw [same]
        exact le_max_of_le_left (sound.stored_le old oldMember) id
  | @deleted id changed answer became =>
      refine { sound with
        table := became.sound
        spec_eq := became.spec_eq.trans sound.spec_eq
        stored_le := ?_ }
      intro pair member
      have groups_eq : changed.groups = _ := became.groups_eq
      rw [groups_eq] at member
      exact sound.stored_le pair (Order.mem_discard member)
  | noted name value =>
      exact { sound with ascending := SortedMap.ascending_insert sound.ascending name value }
  | synced answer =>
      exact sound

/-- Every table that a run comes to is sound. -/
theorem ran
    (sound : Sound config codec start)
    (ran : Ran start history master) :
    Sound config codec master := by
  induction ran with
  | started =>
      exact sound
  | called before call host inductionHypothesis =>
      exact inductionHypothesis.of_becomes (inductionHypothesis.becomes call host)

end Sound

end MasterTable

end OrderedIndex
