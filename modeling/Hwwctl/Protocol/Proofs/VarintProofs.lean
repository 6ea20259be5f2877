import Hwwctl.Library.Protobuf
import Hwwctl.Protocol.Fields

/-!
# Proofs: varints read and written

`decode_varint` reads a complete varint and stops behind it; of one that is cut short it makes the
groups that are left. `encode_varint` writes complete ones.
-/

namespace Hwwctl.Protocol

open Protobuf

/-! ## Reading -/

section Read

variable {i : Nat} {value : UInt64}

/-- One group joins those already read. -/
theorem join_group (byte : UInt8) (hi : i ≤ 9) (hv : value.toNat < 2 ^ (7 * i))
    (hfit : 2 ^ (7 * i) * (byte.toNat % 128) < 2 ^ 64) :
    (value ||| ((byte &&& 0x7F).toUInt64 <<< (UInt32.ofNat (7 * i)).toUInt64)).toNat =
      value.toNat + 2 ^ (7 * i) * (byte.toNat % 128) := by
  have hlow : byte.toNat &&& 127 = byte.toNat % 128 := Nat.and_two_pow_sub_one_eq_mod byte.toNat 7
  have hshift : (7 * i) % 2 ^ 32 % 64 = 7 * i := by omega
  have hor := Nat.two_pow_add_eq_or_of_lt hv (byte.toNat % 128)
  rw [UInt64.toNat_or, UInt64.toNat_shiftLeft, UInt8.toNat_toUInt64, UInt8.toNat_and,
    UInt32.toNat_toUInt64, UInt32.toNat_ofNat', show (0x7F : UInt8).toNat = 127 from rfl, hlow,
    hshift, Nat.shiftLeft_eq, Nat.mul_comm, Nat.mod_eq_of_lt hfit, Nat.or_comm, ← hor,
    Nat.add_comm]

theorem next_shift (i : Nat) : UInt32.ofNat (7 * i) + 7 = UInt32.ofNat (7 * (i + 1)) := by
  apply UInt32.toNat_inj.mp
  rw [UInt32.toNat_add, UInt32.toNat_ofNat', UInt32.toNat_ofNat',
    show (7 : UInt32).toNat = 7 from rfl]
  omega

theorem and_128_eq_zero_iff (byte : UInt8) : byte &&& 0x80 = 0 ↔ byte.toNat < 128 := by
  have hbit : ∀ i : Fin 256, i.val &&& 128 = 0 ↔ i.val < 128 := by decide +kernel
  rw [← UInt8.toNat_inj, UInt8.toNat_and]
  exact hbit ⟨byte.toNat, byte.toNat_lt⟩

/-- Bytes that announce another are read one by one, into the sum of their groups. -/
theorem decodeVarintLoop_more (len : Nat) (rest : List UInt8) {more : List UInt8}
    (hmore : ∀ byte ∈ more, 128 ≤ byte.toNat) (hi : i + more.length ≤ 9)
    (hv : value.toNat < 2 ^ (7 * i)) :
    ∃ value', value'.toNat = value.toNat + 2 ^ (7 * i) * groups more ∧
      decodeVarintLoop len (more ++ rest) i value (UInt32.ofNat (7 * i)) =
        decodeVarintLoop len rest (i + more.length) value'
          (UInt32.ofNat (7 * (i + more.length))) := by
  induction more generalizing i value with
  | nil => exact ⟨value, by simp, rfl⟩
  | cons byte more ih =>
    rw [List.length_cons] at hi ⊢
    have hpow : 2 ^ (7 * i) * 128 ≤ 2 ^ 64 := by
      have := Nat.pow_le_pow_right (show 0 < 2 by omega) (show 7 * i + 7 ≤ 64 by omega)
      rwa [Nat.pow_add] at this
    have hlt := Nat.mod_lt byte.toNat (show 0 < 128 by omega)
    have hfit : 2 ^ (7 * i) * (byte.toNat % 128) < 2 ^ 64 :=
      Nat.lt_of_lt_of_le (Nat.mul_lt_mul_of_pos_left hlt (Nat.two_pow_pos _)) hpow
    have hjoin := join_group byte (show i ≤ 9 by omega) hv hfit
    set value₁ := value ||| ((byte &&& 0x7F).toUInt64 <<< (UInt32.ofNat (7 * i)).toUInt64)
      with hvalue₁
    have hv₁ : value₁.toNat < 2 ^ (7 * (i + 1)) := by
      rw [hjoin, two_pow_groups, Nat.mul_comm 128]
      have := Nat.mul_le_mul_left (2 ^ (7 * i)) (show byte.toNat % 128 + 1 ≤ 128 by omega)
      rw [Nat.mul_add] at this
      omega
    obtain ⟨value', hsum, hloop⟩ := ih (fun byte' h => hmore byte' (List.mem_cons_of_mem _ h))
      (show i + 1 + more.length ≤ 9 by omega) hv₁
    refine ⟨value', ?_, ?_⟩
    · rw [hsum, hjoin, groups_cons, two_pow_groups, Nat.mul_add, Nat.mul_comm 128, Nat.mul_assoc,
        Nat.add_assoc]
    · have hge : ¬ byte &&& 0x80 = 0 := fun h => by
        have := hmore byte List.mem_cons_self
        have := (and_128_eq_zero_iff byte).mp h
        omega
      have hshift : ¬ UInt32.ofNat (7 * (i + 1)) ≥ 64 := by
        rw [ge_iff_le, UInt32.le_iff_toNat_le, UInt32.toNat_ofNat',
          show (64 : UInt32).toNat = 64 from rfl, Nat.mod_eq_of_lt (by omega)]
        omega
      rw [List.cons_append, decodeVarintLoop]
      simp only [← hvalue₁, if_neg hge, next_shift, if_neg hshift]
      rw [hloop, Nat.add_right_comm, Nat.add_assoc]

end Read

/-- A complete varint is read to its end. -/
theorem decodeVarint_varint (v : Varint) (rest : List UInt8) :
    decodeVarint (v.bytes ++ rest) = (UInt64.ofNat v.value, v.bytes.length) := by
  have hstart : (0 : UInt64).toNat < 2 ^ (7 * 0) := by simp
  obtain ⟨value, hsum, hloop⟩ := decodeVarintLoop_more (v.bytes ++ rest).length (v.last :: rest)
    v.more_ge (by have := v.short; omega) hstart
  have hvalue : v.value = groups v.more + 2 ^ (7 * v.more.length) * (v.last.toNat % 128) := by
    rw [Varint.value, Varint.bytes, groups_append, groups_cons, groups_nil, Nat.mul_zero,
      Nat.add_zero]
  have hgroups : value.toNat = groups v.more := by simpa using hsum
  have hfits := v.value_lt
  have hjoin := join_group v.last v.short (by rw [hgroups]; exact groups_lt v.more)
    (show 2 ^ (7 * v.more.length) * (v.last.toNat % 128) < 2 ^ 64 by omega)
  have hlast : v.last &&& 0x80 = 0 := (and_128_eq_zero_iff _).mpr v.last_lt
  unfold decodeVarint
  rw [show v.bytes ++ rest = v.more ++ v.last :: rest by simp [Varint.bytes]] at hloop ⊢
  rw [show (0 : UInt32) = UInt32.ofNat (7 * 0) from rfl, hloop, decodeVarintLoop]
  simp only [Nat.zero_add, if_pos hlast]
  refine Prod.ext ?_ (by simp [Varint.bytes])
  apply UInt64.toNat_inj.mp
  rw [hjoin, hgroups, ← hvalue, UInt64.toNat_ofNat', Nat.mod_eq_of_lt hfits]

/-- Of a varint cut short at the end of the data all is consumed, and the groups that are left
are its value. -/
theorem decodeVarint_cut {part : List UInt8} (hpart : ∀ byte ∈ part, 128 ≤ byte.toNat)
    (hshort : part.length ≤ 9) : decodeVarint part = (UInt64.ofNat (groups part), part.length) := by
  have hstart : (0 : UInt64).toNat < 2 ^ (7 * 0) := by simp
  obtain ⟨value, hsum, hloop⟩ := decodeVarintLoop_more part.length [] hpart (by omega) hstart
  have hgroups : value.toNat = groups part := by simpa using hsum
  unfold decodeVarint
  rw [List.append_nil] at hloop
  rw [show (0 : UInt32) = UInt32.ofNat (7 * 0) from rfl, hloop, decodeVarintLoop, ← hgroups,
    UInt64.ofNat_toNat]

/-! ## Writing -/

theorem low_group (value : UInt64) : (value &&& 0x7F).toUInt8.toNat = value.toNat % 128 := by
  have hlow : value.toNat &&& 127 = value.toNat % 128 :=
    Nat.and_two_pow_sub_one_eq_mod value.toNat 7
  rw [UInt64.toNat_toUInt8, UInt64.toNat_and, show (0x7F : UInt64).toNat = 127 from rfl, hlow]
  omega

theorem low_group_or (value : UInt64) :
    ((value &&& 0x7F).toUInt8 ||| 0x80).toNat = value.toNat % 128 + 128 := by
  have hlt := Nat.mod_lt value.toNat (show 0 < 2 ^ 7 by omega)
  have hor : 128 + value.toNat % 128 = 128 ||| value.toNat % 128 :=
    Nat.two_pow_add_eq_or_of_lt hlt 1
  rw [UInt8.toNat_or, low_group, show (0x80 : UInt8).toNat = 128 from rfl, Nat.or_comm]
  omega

theorem high_groups (value : UInt64) : (value >>> 7).toNat = value.toNat / 128 := by
  rw [UInt64.toNat_shiftRight, Nat.shiftRight_eq_div_pow]
  rfl

/-- The last byte that `encode_varint` writes. -/
theorem encodeVarint_last {value : UInt64} (k : Nat) (hrest : value >>> 7 = 0) :
    ∃ more last, encodeVarint value = more ++ [last] ∧ (∀ byte ∈ more, 128 ≤ byte.toNat) ∧
      last.toNat < 128 ∧ more.length ≤ k ∧ groups (more ++ [last]) = value.toNat := by
  have hdiv := high_groups value
  rw [hrest, show (0 : UInt64).toNat = 0 from rfl] at hdiv
  refine ⟨[], (value &&& 0x7F).toUInt8, ?_, by simp, ?_, Nat.zero_le k, ?_⟩
  · rw [encodeVarint]
    simp [hrest]
  · rw [low_group]
    omega
  · rw [List.nil_append, groups_cons, low_group, groups_nil]
    omega

/-- The bytes that `encode_varint` writes: at most as many as there are groups. -/
theorem encodeVarint_groups (value : UInt64) {k : Nat} (hk : value.toNat < 2 ^ (7 * (k + 1))) :
    ∃ more last, encodeVarint value = more ++ [last] ∧ (∀ byte ∈ more, 128 ≤ byte.toNat) ∧
      last.toNat < 128 ∧ more.length ≤ k ∧ groups (more ++ [last]) = value.toNat := by
  induction k generalizing value with
  | zero =>
    have hrest : value >>> 7 = 0 := by
      apply UInt64.toNat_inj.mp
      rw [high_groups, show (0 : UInt64).toNat = 0 from rfl]
      omega
    exact encodeVarint_last _ hrest
  | succ k ih =>
    by_cases hrest : value >>> 7 = 0
    · exact encodeVarint_last _ hrest
    · rw [two_pow_groups] at hk
      have hdiv := high_groups value
      obtain ⟨more, last, he, hmore, hlast, hlen, hgroups⟩ := ih (value >>> 7) (by omega)
      refine ⟨((value &&& 0x7F).toUInt8 ||| 0x80) :: more, last, ?_, ?_, hlast, ?_, ?_⟩
      · rw [List.cons_append, ← he, encodeVarint]
        exact if_pos hrest
      · intro byte hbyte
        rcases List.mem_cons.mp hbyte with rfl | hbyte
        · rw [low_group_or]
          omega
        · exact hmore byte hbyte
      · rw [List.length_cons]
        omega
      · rw [List.cons_append, groups_cons, hgroups, low_group_or, hdiv]
        omega

/-- `encode_varint` writes a complete varint of the value it is given. -/
theorem exists_encodeVarint (value : UInt64) :
    ∃ v : Varint, v.bytes = encodeVarint value ∧ v.value = value.toNat := by
  have hlt := value.toNat_lt
  obtain ⟨more, last, he, hmore, hlast, hlen, hgroups⟩ := encodeVarint_groups value (k := 9)
    (by omega)
  refine ⟨⟨more, last, hmore, hlast, hlen, by rw [hgroups]; exact hlt⟩, he.symm, hgroups⟩

end Hwwctl.Protocol
