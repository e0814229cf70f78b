import ModelMint.Instance.Run

/-!
# What calls come to

A call of an operation of the base is a check of the value, or it reads or writes one
attribute.  Anything that is a mere value can not be called.
-/

namespace ModelMint

/-! ## Actions -/

namespace Action

variable {α β : Type}

theorem bind_run (action : Action α) (next : α → Action β) (store : Store) :
    (action >>= next) store = match action store with
      | (store, .ok value) => next value store
      | (store, .error refusal) => (store, .error refusal) := rfl

theorem pure_run (value : α) (store : Store) :
    (Pure.pure value : Action α) store = (store, .ok value) := rfl

theorem ofFault_run (result : Except Fault α) (store : Store) :
    ofFault result store = (store, Scene.ofFault result) := rfl

theorem check_bind_pure (library : Library) (f : Scene → Except Refusal α) (value : β)
    (store : Store) :
    (check library f >>= fun _ => Pure.pure value) store =
      (store, (f ⟨library, store⟩).map fun _ => value) := by
  rw [bind_run, check]
  cases f ⟨library, store⟩ <;> rfl

end Action

/-! ## Operations of the base -/

section Calls

variable {library : Library} {store : Store} {id : Nat} {value minimum maximum hidden : Value}
  {attr : String} (fuel : Nat)

theorem call_value {arguments : List Value} :
    call library (fuel + 1) id (.value hidden) arguments store =
      (store, .error (.fault .unsuitable)) := by
  unfold call
  rfl

theorem call_operation {operation : Operation} {arguments : List Value} :
    call library (fuel + 1) id (.operation operation) arguments store =
      runOperation library fuel id operation arguments store := by
  unfold call
  rfl

theorem call_checkElements {kind : Value} :
    call library (fuel + 2) id (.operation .checkElements) [value, kind] store =
      (store, ((Scene.mk library store).checkElements value kind).map fun _ => .none) := by
  rw [call_operation]
  unfold runOperation
  exact Action.check_bind_pure library _ _ store

theorem call_checkLength :
    call library (fuel + 2) id (.operation .checkLength) [value, minimum, maximum] store =
      (store, ((Scene.mk library store).checkLength value minimum maximum).map fun _ => .none) := by
  rw [call_operation]
  unfold runOperation
  exact Action.check_bind_pure library _ _ store

theorem call_checkNumber :
    call library (fuel + 2) id (.operation .checkNumber) [value, minimum, maximum] store =
      (store, ((Scene.mk library store).checkBounds false value minimum maximum).map
        fun _ => .none) := by
  rw [call_operation]
  unfold runOperation
  exact Action.check_bind_pure library _ _ store

theorem call_checkOneOf {allowed : Value} :
    call library (fuel + 2) id (.operation .checkOneOf) [value, allowed] store =
      (store, ((Scene.mk library store).checkOneOf value allowed).map fun _ => .none) := by
  rw [call_operation]
  unfold runOperation
  exact Action.check_bind_pure library _ _ store

theorem call_parseMoment :
    call library (fuel + 2) id (.operation .parseMoment) [value] store =
      (store, (Scene.mk library store).parseMoment value) := by
  rw [call_operation]
  unfold runOperation
  rfl

/-- The checks for each kind of number call the one for all. -/
theorem call_checkNumberKind
    (hnumber : findMember library id numberCheckName store = .ok (.operation .checkNumber)) :
    call library (fuel + 4) id (.operation .checkNumberKind) [value, minimum, maximum] store =
      (store, ((Scene.mk library store).checkBounds false value minimum maximum).map
        fun _ => .none) := by
  rw [call_operation]
  unfold runOperation
  simp only [Action.bind_run, member, hnumber, call_checkNumber]
  cases (Scene.mk library store).checkBounds false value minimum maximum <;> rfl

theorem call_checkNumberKind_hidden
    (hnumber : findMember library id numberCheckName store = .ok (.value hidden)) :
    call library (fuel + 3) id (.operation .checkNumberKind) [value, minimum, maximum] store =
      (store, .error (.fault .unsuitable)) := by
  rw [call_operation]
  unfold runOperation
  simp only [Action.bind_run, member, hnumber, call_value]

theorem call_exportElements {items : List Value} :
    call library (fuel + 2) id (.operation .exportElements) [.list items] store =
      ((Action.forEach (exportItem library fuel) items).bind
        fun outs => Action.pure (Value.list outs)) store := by
  rw [call_operation]
  unfold runOperation
  rfl

/-! ## Attributes -/

theorem call_reader
    (hread : findMember library id readerName store = .ok (.operation .readAttribute)) :
    call library (fuel + 3) id (.reader attr) [] store =
      (store, match store.attribute? id attr with
        | some value => .ok value
        | none => .error (.fault (.unset (store.classOf id) attr))) := by
  unfold call
  simp only [Action.bind_run, member, hread, call_operation]
  unfold runOperation
  simp only [readAttribute]
  cases store.attribute? id attr <;> rfl

theorem call_reader_hidden
    (hread : findMember library id readerName store = .ok (.value hidden)) :
    call library (fuel + 2) id (.reader attr) [] store = (store, .error (.fault .unsuitable)) := by
  unfold call
  simp only [Action.bind_run, member, hread, call_value]

theorem call_writer
    (hwrite : findMember library id writerName store = .ok (.operation .writeAttribute)) :
    call library (fuel + 3) id (.writer attr) [value] store =
      (store.put id attr value, .ok (.instance id)) := by
  unfold call
  simp only [Action.bind_run, member, hwrite, call_operation]
  unfold runOperation
  rfl

theorem call_writer_hidden
    (hwrite : findMember library id writerName store = .ok (.value hidden)) :
    call library (fuel + 2) id (.writer attr) [value] store =
      (store, .error (.fault .unsuitable)) := by
  unfold call
  simp only [Action.bind_run, member, hwrite, call_value]

end Calls

end ModelMint
