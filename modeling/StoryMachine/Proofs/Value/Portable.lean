import StoryMachine.Pool
import StoryMachine.Proofs.Bytes

/-!
# Values of an image

A value that is read from an image is *portable*: if it names an object, then one
of the image.

* `Value.Portable`: such a value;
* `Reader.value_portable`: a value that was read;
* `Reader.reads_portable`: a value that is read back;
* `Value.written`, `Reader.reads_written`: what becomes of any value;
* `Pools.readList_portable`: the elements of a constant list.
-/

namespace StoryMachine

/-- A value that means the same whatever happens: anything but the name of an
    object that is not of the image. -/
def Value.Portable (v : Value) : Prop := ∀ id, v = .obj id → id.generation = 0

theorem Value.Portable.of_obj? {v : Value} (hv : v.obj? = none) : v.Portable := by
  rintro id rfl
  cases hv

theorem Value.portable_ofImage (n : UInt32) : (Value.obj (.ofImage n)).Portable := by
  rintro id hid
  rw [← Value.obj.inj hid]
  rfl

theorem Value.ofDatum?_portable {v : Value} {data : UInt32} {type : DataType}
    (hv : ofDatum? data type = some v) : v.Portable := by
  cases type with
  | object =>
    rw [← Option.some.inj hv]
    exact portable_ofImage data
  | float => cases hv
  | _ =>
    rw [← Option.some.inj hv]
    exact .of_obj? rfl

theorem Reader.value_portable {v : Value} {bs rest : Bytes} (hv : value bs = some (v, rest)) :
    v.Portable := by
  obtain ⟨front, mid, -, hmid⟩ := bind_eq_some.1 hv
  cases front with
  | nil => cases hmid
  | cons tag data =>
    obtain ⟨type, mid', -, hmid'⟩ := bind_eq_some.1 hmid
    exact Value.ofDatum?_portable (lift_eq_some.1 hmid').1

/-! ## Reading back what was written -/

theorem DataType.ofCode?_code (type : DataType) : ofCode? type.code = some type := by
  cases type <;> rfl

/-- The type and the datum of a value say which one it is. -/
theorem Value.ofDatum?_datum? {v : Value} {data : UInt32} (hv : v.datum? = some data) :
    ofDatum? data v.dataType = some v := by
  cases v with
  | obj id =>
    rw [datum?] at hv
    split at hv
    · next hgeneration =>
      obtain rfl := Option.some.inj hv
      obtain ⟨index, generation⟩ := id
      exact congrArg (fun g => some (obj ⟨index, g⟩)) hgeneration.symm
    · cases hv
  | float x => cases hv
  | int n =>
    obtain rfl := Option.some.inj hv
    rfl
  | prop p =>
    obtain rfl := Option.some.inj hv
    exact congrArg (fun p => some (prop p)) (UInt16.toUInt16_toUInt32 p)
  | _ =>
    obtain rfl := Option.some.inj hv
    rfl

theorem Reader.reads_portable {v : Value} (hv : v.portable?.isSome = true) :
    Reads value v.portable v := by
  obtain ⟨bs, hbs⟩ := Option.isSome_iff_exists.1 hv
  obtain ⟨data, hdata, rfl⟩ := Option.map_eq_some_iff.1 hbs
  have hlength : (v.dataType.code :: Bytes.u32 data).length = Value.portableSize := by
    rw [List.length_cons, Bytes.u32, Bytes.length_ofNat, Value.portableSize]
  have hback : UInt32.ofNat (Bytes.toNat (Bytes.u32 data)) = data := by
    rw [Bytes.u32, Bytes.toNat_ofNat data.toNat_lt, UInt32.ofNat_toNat]
  have hread : Reads value (v.dataType.code :: Bytes.u32 data ++ []) v := by
    refine (hlength ▸ reads_bytes (v.dataType.code :: Bytes.u32 data)).bind fun rest => ?_
    refine bind_eq_some.2 ⟨v.dataType, rest, lift_eq_some.2 ⟨DataType.ofCode?_code _, rfl⟩, ?_⟩
    rw [hback]
    exact lift_eq_some.2 ⟨Value.ofDatum?_datum? hdata, rfl⟩
  rw [List.append_nil] at hread
  rwa [Value.portable, hbs, Option.getD_some]

/-- What becomes of a value that is written: nil where it has no portable form. -/
def Value.written (v : Value) : Value := if v.portable?.isSome then v else nil

theorem Value.isSome_portable?_written (v : Value) : v.written.portable?.isSome = true := by
  rw [written]
  split
  · assumption
  · rfl

theorem Value.portable_written (v : Value) : v.written.portable = v.portable := by
  rw [written]
  split
  · rfl
  · next hnone => rw [portable, portable, Option.not_isSome_iff_eq_none.1 hnone]; rfl

/-- Whatever value is written, one is read back. -/
theorem Reader.reads_written (v : Value) : Reads value v.portable v.written :=
  v.portable_written ▸ reads_portable v.isSome_portable?_written

theorem Value.length_portable (v : Value) : v.portable.length = portableSize := by
  rw [portable, portable?]
  cases v.datum? <;> simp [portableSize, Bytes.u32, Bytes.length_ofNat]

theorem Reader.takes_value : value.Takes Value.portableSize := by
  change value.Takes (Value.portableSize + 0)
  refine (takes_bytes _).bind fun bs => ?_
  cases bs with
  | nil => exact fun _ _ _ hr => by cases hr
  | cons tag data =>
    change Takes _ (0 + 0)
    exact (Takes.lift _).bind fun _ => .lift _

/-! ## Constant lists -/

theorem Pools.readList_portable {ps : Pools} {ofs : UInt32} {vs : List Value}
    (hvs : (ps.readList ofs).1 = .ok vs) : ∀ v ∈ vs, v.Portable := by
  unfold readList at hvs
  cases hs : (ps.constantSlice ofs).1 with
  | error e => simp [hs, Except.bind] at hvs
  | ok s =>
    simp only [hs, Except.bind, listIn] at hvs
    split at hvs
    · cases hvs
    · split at hvs
      · cases hvs
      · next hread =>
        rw [← Except.ok.inj hvs]
        exact Reader.forall_mem_replicate (fun _ _ _ => Reader.value_portable) hread

end StoryMachine
