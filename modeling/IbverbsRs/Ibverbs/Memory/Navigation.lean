import IbverbsRs.Ibverbs.Memory.RemoteMemoryRegion

namespace IbverbsRs.Ibverbs

open Math

namespace RemoteMemoryRegion

/-- `remote_array_field!` for elements of `type_size` bytes. -/
def remote_array_field (mr : RemoteMemoryRegion) (type_size index : UInt64) :
    Option RemoteMemoryRegion :=
  match checked_mul index type_size with
  | some offset => mr.sub_region offset
  | none => none

def remote_array_field_unchecked (mr : RemoteMemoryRegion) (type_size index : UInt64) :
    RemoteMemoryRegion :=
  let offset := index * type_size
  mr.sub_region_unchecked offset

/-- `remote_struct_field!` for the field at `field_offset`. -/
def remote_struct_field (mr : RemoteMemoryRegion) (field_offset : UInt64) :
    Option RemoteMemoryRegion := mr.sub_region field_offset

def remote_struct_field_unchecked (mr : RemoteMemoryRegion) (field_offset : UInt64) :
    RemoteMemoryRegion := mr.sub_region_unchecked field_offset

/-- `remote_struct_array_field!` for structs of `struct_size` bytes with the field at
`field_offset`. -/
def remote_struct_array_field (mr : RemoteMemoryRegion) (struct_size field_offset index : UInt64) :
    Option RemoteMemoryRegion :=
  match (checked_mul index struct_size).bind (fun o => checked_add o field_offset) with
  | some total_offset => mr.sub_region total_offset
  | none => none

def remote_struct_array_field_unchecked (mr : RemoteMemoryRegion)
    (struct_size field_offset index : UInt64) : RemoteMemoryRegion :=
  let total_offset := index * struct_size + field_offset
  mr.sub_region_unchecked total_offset

/-- Whether an address lies in the region. -/
def Contains (self : RemoteMemoryRegion) (addr : UInt64) : Prop :=
  self.addr.toNat ≤ addr.toNat ∧ addr.toNat < self.stop

end RemoteMemoryRegion

/-- A way to a part of a region. -/
inductive Navigation
  | sub_region (offset : UInt64)
  | array_field (type_size index : UInt64)
  | struct_field (field_offset : UInt64)
  | struct_array_field (struct_size field_offset index : UInt64)
  deriving DecidableEq, Repr

namespace Navigation

def checked (mr : RemoteMemoryRegion) : Navigation → Option RemoteMemoryRegion
  | sub_region offset => mr.sub_region offset
  | array_field type_size index => mr.remote_array_field type_size index
  | struct_field field_offset => mr.remote_struct_field field_offset
  | struct_array_field struct_size field_offset index =>
    mr.remote_struct_array_field struct_size field_offset index

def unchecked (mr : RemoteMemoryRegion) : Navigation → RemoteMemoryRegion
  | sub_region offset => mr.sub_region_unchecked offset
  | array_field type_size index => mr.remote_array_field_unchecked type_size index
  | struct_field field_offset => mr.remote_struct_field_unchecked field_offset
  | struct_array_field struct_size field_offset index =>
    mr.remote_struct_array_field_unchecked struct_size field_offset index

/-- The true offset, without wrapping. -/
def offset : Navigation → Nat
  | sub_region offset => offset.toNat
  | array_field type_size index => index.toNat * type_size.toNat
  | struct_field field_offset => field_offset.toNat
  | struct_array_field struct_size field_offset index =>
    index.toNat * struct_size.toNat + field_offset.toNat

section Offsets

variable (mr : RemoteMemoryRegion) (nav : Navigation)

/-- Every checked way is a sub-region at its true offset. -/
theorem checked_eq : nav.checked mr = mr.sub_region_at nav.offset := by
  cases nav with
  | sub_region offset | struct_field offset => exact (mr.sub_region_at_toNat offset).symm
  | array_field type_size index =>
    rw [checked, RemoteMemoryRegion.remote_array_field, RemoteMemoryRegion.sub_region_at]
    change _ = (checked_mul index type_size).bind mr.sub_region
    cases checked_mul index type_size <;> rfl
  | struct_array_field struct_size field_offset index =>
    rw [checked, RemoteMemoryRegion.remote_struct_array_field, checked_mul_add,
      RemoteMemoryRegion.sub_region_at, Navigation.offset]
    cases try_from (index.toNat * struct_size.toNat + field_offset.toNat) <;> rfl

/-- Every unchecked way is a sub-region at its true offset modulo `2^64`. -/
theorem unchecked_eq : nav.unchecked mr = mr.sub_region_unchecked (UInt64.ofNat nav.offset) := by
  cases nav with
  | sub_region offset | struct_field offset =>
    rw [Navigation.offset, UInt64.ofNat_toNat]
    rfl
  | array_field type_size index =>
    rw [Navigation.offset, UInt64.ofNat_mul, UInt64.ofNat_toNat, UInt64.ofNat_toNat]
    rfl
  | struct_array_field struct_size field_offset index =>
    rw [Navigation.offset, UInt64.ofNat_add, UInt64.ofNat_mul, UInt64.ofNat_toNat,
      UInt64.ofNat_toNat, UInt64.ofNat_toNat]
    rfl

theorem unchecked_addr :
    (nav.unchecked mr).addr.toNat = (mr.addr.toNat + nav.offset) % 2 ^ 64 := by
  rw [unchecked_eq, RemoteMemoryRegion.sub_region_unchecked, UInt64.toNat_add, UInt64.toNat_ofNat',
    Nat.add_mod_mod]

theorem unchecked_of_checked {part : RemoteMemoryRegion} (h : nav.checked mr = some part) :
    nav.unchecked mr = part := by
  rw [checked_eq, RemoteMemoryRegion.sub_region_at] at h
  obtain ⟨offset, hoffset, hpart⟩ := Option.bind_eq_some_iff.mp h
  rw [unchecked_eq, ← try_from_eq_some.mp hoffset, UInt64.ofNat_toNat]
  unfold RemoteMemoryRegion.sub_region at hpart
  split_ifs at hpart
  obtain ⟨addr, haddr, rfl⟩ := Option.map_eq_some_iff.mp hpart
  have hsum : mr.addr + offset = addr := by
    have hlt : addr.toNat < 2 ^ 64 := addr.toNat_lt
    rw [← UInt64.toNat_inj, UInt64.toNat_add, ← checked_add_eq_some.mp haddr]
    exact Nat.mod_eq_of_lt hlt
  rw [RemoteMemoryRegion.sub_region_unchecked, hsum]

end Offsets

/-- The unchecked handle starts inside the region when the true offset, or what is left of it after
wrapping, does. -/
theorem contains_unchecked_iff {mr : RemoteMemoryRegion} (hfits : mr.stop ≤ 2 ^ 64)
    (nav : Navigation) :
    mr.Contains (nav.unchecked mr).addr ↔ nav.offset % 2 ^ 64 < mr.length.toNat := by
  have haddr : mr.addr.toNat < 2 ^ 64 := mr.addr.toNat_lt
  unfold RemoteMemoryRegion.Contains RemoteMemoryRegion.stop at *
  rw [unchecked_addr]
  omega

/-- An unchecked handle is the checked one where there is one. Behind the region it starts outside,
unless the true offset wraps around into the region. -/
theorem unchecked_navigation (mr : RemoteMemoryRegion) (hfits : mr.stop ≤ 2 ^ 64)
    (nav : Navigation) :
    ((∀ part, nav.checked mr = some part → nav.unchecked mr = part) ∧
      (mr.length.toNat < nav.offset → ¬ mr.Contains (nav.unchecked mr).addr)) ↔
    ∀ k, 0 < k → ¬ (k * 2 ^ 64 ≤ nav.offset ∧ nav.offset < k * 2 ^ 64 + mr.length.toNat) := by
  have hlength : mr.length.toNat < 2 ^ 64 := mr.length.toNat_lt
  rw [contains_unchecked_iff hfits]
  constructor
  · intro h k hk hoffset
    have houtside := h.2 (by omega)
    have hmod : nav.offset % 2 ^ 64 = nav.offset - k * 2 ^ 64 := by omega
    omega
  · intro h
    refine ⟨fun part => unchecked_of_checked mr nav, ?_⟩
    intro hbehind hinside
    have hwraps : 0 < nav.offset / 2 ^ 64 := by omega
    exact h _ hwraps (by omega)

/-- Element 4 of ten is where the checked macro puts it, element 20 starts behind the array. -/
theorem unchecked_navigation_within :
    (Navigation.array_field 8 4).checked ⟨0x1000, 80, 0xABCD⟩ = some ⟨0x1020, 48, 0xABCD⟩ ∧
    (Navigation.array_field 8 4).unchecked ⟨0x1000, 80, 0xABCD⟩ = ⟨0x1020, 48, 0xABCD⟩ ∧
    (Navigation.array_field 8 20).checked ⟨0x1000, 80, 0xABCD⟩ = none ∧
    (80 : UInt64).toNat < (Navigation.array_field 8 20).offset ∧
    ¬ RemoteMemoryRegion.Contains ⟨0x1000, 80, 0xABCD⟩
      ((Navigation.array_field 8 20).unchecked ⟨0x1000, 80, 0xABCD⟩).addr := by
  have hwithin := (unchecked_navigation ⟨0x1000, 80, 0xABCD⟩ (by decide) (.array_field 8 4)).mpr (by
    intro k hk hoffset
    have htrue : (Navigation.array_field 8 4).offset = 32 := rfl
    omega)
  have hbehind := (unchecked_navigation ⟨0x1000, 80, 0xABCD⟩ (by decide) (.array_field 8 20)).mpr (by
    intro k hk hoffset
    have htrue : (Navigation.array_field 8 20).offset = 160 := rfl
    omega)
  have hchecked : (Navigation.array_field 8 4).checked ⟨0x1000, 80, 0xABCD⟩ =
      some ⟨0x1020, 48, 0xABCD⟩ := by decide
  exact ⟨hchecked, hwithin.1 _ hchecked, by decide, by decide, hbehind.2 (by decide)⟩

/-- Element `2^61` of an array of `u64` starts where the array does. -/
theorem unchecked_navigation_wraps :
    (80 : UInt64).toNat < (Navigation.array_field 8 2305843009213693952).offset ∧
    (Navigation.array_field 8 2305843009213693952).unchecked ⟨0x1000, 80, 0xABCD⟩ =
      ⟨0x1000, 80, 0xABCD⟩ ∧
    ¬ ((80 : UInt64).toNat < (Navigation.array_field 8 2305843009213693952).offset →
      ¬ RemoteMemoryRegion.Contains ⟨0x1000, 80, 0xABCD⟩
        ((Navigation.array_field 8 2305843009213693952).unchecked ⟨0x1000, 80, 0xABCD⟩).addr) := by
  refine ⟨by decide, by decide, ?_⟩
  intro h
  apply h (by decide)
  exact ⟨by decide, by decide⟩

end Navigation

/-- A type of `size` bytes with a field of `field_size` bytes at `field_offset`. -/
structure ElementType where
  size : UInt64
  field_offset : UInt64
  field_size : UInt64
  field_pos : 0 < field_size.toNat
  field_inside : field_offset.toNat + field_size.toNat ≤ size.toNat

/-- What the macros reach: an element of an array, a field, a field of an element of an array. -/
inductive Target
  | element (index : UInt64)
  | field
  | element_field (index : UInt64)
  deriving DecidableEq, Repr

namespace Target

def navigation (T : ElementType) : Target → Navigation
  | element index => .array_field T.size index
  | field => .struct_field T.field_offset
  | element_field index => .struct_array_field T.size T.field_offset index

def size (T : ElementType) : Target → UInt64
  | element _ => T.size
  | field | element_field _ => T.field_size

/-- The target lies entirely inside the region. -/
def Inside (T : ElementType) (mr : RemoteMemoryRegion) (target : Target) : Prop :=
  (target.navigation T).offset + (target.size T).toNat ≤ mr.length.toNat

theorem size_pos (T : ElementType) (target : Target) : 0 < (target.size T).toNat := by
  have hpos := T.field_pos
  have hinside := T.field_inside
  cases target with
  | element index => exact Nat.lt_of_lt_of_le (by omega) hinside
  | field | element_field index => exact hpos

/-- The macros hand out what starts inside the region or at its end, as far as there are addresses.
The handle is as long as the target exactly when the target lies inside. -/
theorem checked_navigation (mr : RemoteMemoryRegion) (hfits : mr.stop ≤ 2 ^ 64) (T : ElementType)
    (target : Target) :
    (((target.navigation T).checked mr).isSome ↔
      (target.navigation T).offset ≤ mr.length.toNat ∧
        mr.addr.toNat + (target.navigation T).offset < 2 ^ 64) ∧
    (target.Inside T mr → ((target.navigation T).checked mr).isSome) ∧
    ∀ part, (target.navigation T).checked mr = some part →
      part.rkey = mr.rkey ∧ part.addr.toNat = mr.addr.toNat + (target.navigation T).offset ∧
      part.length.toNat = mr.length.toNat - (target.navigation T).offset ∧
      ((target.size T).toNat ≤ part.length.toNat ↔ target.Inside T mr) := by
  have hpos := size_pos T target
  have hsome : ((target.navigation T).checked mr).isSome ↔
      (target.navigation T).offset ≤ mr.length.toNat ∧
        mr.addr.toNat + (target.navigation T).offset < 2 ^ 64 := by
    rw [Navigation.checked_eq, RemoteMemoryRegion.isSome_sub_region_at]
  unfold RemoteMemoryRegion.stop at hfits
  refine ⟨hsome, ?_, ?_⟩
  · intro hinside
    unfold Inside at hinside
    exact hsome.mpr ⟨by omega, by omega⟩
  · intro part hpart
    rw [Navigation.checked_eq] at hpart
    obtain ⟨hrkey, haddr, hlength⟩ := RemoteMemoryRegion.sub_region_at_eq_some.mp hpart
    refine ⟨hrkey, haddr, by omega, ?_⟩
    unfold Inside
    omega

/-- `u64` as its own only field. -/
def u64 : ElementType := ⟨8, 0, 8, by decide, by decide⟩

theorem checked_navigation_inside :
    (((element 4).navigation u64).checked ⟨0x1000, 80, 0xABCD⟩).isSome :=
  (checked_navigation ⟨0x1000, 80, 0xABCD⟩ (by decide) u64 (element 4)).2.1
    (show 4 * 8 + 8 ≤ 80 by decide)

/-- The eleventh of ten elements has a handle of no bytes. -/
theorem checked_navigation_past_end :
    ((element 10).navigation u64).checked ⟨0x1000, 80, 0xABCD⟩ = some ⟨0x1050, 0, 0xABCD⟩ ∧
    ¬ ((((element 10).navigation u64).checked ⟨0x1000, 80, 0xABCD⟩).isSome ↔
      (element 10).Inside u64 ⟨0x1000, 80, 0xABCD⟩) := by
  have hpart : ((element 10).navigation u64).checked ⟨0x1000, 80, 0xABCD⟩ =
      some ⟨0x1050, 0, 0xABCD⟩ := by decide
  refine ⟨hpart, ?_⟩
  rw [hpart]
  intro h
  have hinside : 10 * 8 + 8 ≤ 80 := h.mp rfl
  omega

end Target

end IbverbsRs.Ibverbs
