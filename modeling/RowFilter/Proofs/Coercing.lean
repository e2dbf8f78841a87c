import Mathlib.Tactic.Linarith
import RowFilter.Proofs.Complements
import RowFilter.Proofs.Exactness

/-!
# What coercion keeps

A value denotes a number, a text and so on, whichever kind of value says it: a double denotes the
rational number that its bits say, an integer itself. Coercing a value to the type of a property
changes at most the kind that says it, and every kind says each thing in one way only; so coerced
values are equal exactly if the given values denote the same, and so are the instances of
comparisons with constants.
-/

namespace RowFilter

namespace Number

namespace Scaled

variable {x y : Scaled}

/-- The number with its sign. -/
def value (x : Scaled) : ℚ :=
  if x.negative then -x.magnitude else x.magnitude

theorem magnitude_nonneg (x : Scaled) : 0 ≤ x.magnitude :=
  mul_nonneg (Nat.cast_nonneg _) (zpow_nonneg zero_le_two _)

theorem value_congr (hnegative : x.negative = y.negative) (hmagnitude : x.magnitude = y.magnitude) :
    x.value = y.value := by
  rw [value, value, hnegative, hmagnitude]

theorem value_eq_zero : x.value = 0 ↔ x.magnitude = 0 := by
  unfold value
  split
  · exact neg_eq_zero
  · exact Iff.rfl

/-- Away from zero, a number says its sign and its magnitude. -/
theorem eq_of_value (h : x.value = y.value) (hne : x.value ≠ 0) :
    x.negative = y.negative ∧ x.magnitude = y.magnitude := by
  have hx := x.magnitude_nonneg
  have hy := y.magnitude_nonneg
  have hx' : x.magnitude ≠ 0 := fun h0 => hne (value_eq_zero.2 h0)
  have hpos : 0 < x.magnitude := lt_of_le_of_ne hx hx'.symm
  unfold value at h
  cases hnx : x.negative <;> cases hny : y.negative <;> rw [hnx, hny] at h
  · exact ⟨rfl, h⟩
  · -- a negative number is not a positive one
    simp only [reduceIte, Bool.false_eq_true] at h
    linarith
  · simp only [reduceIte, Bool.false_eq_true] at h
    linarith
  · exact ⟨rfl, neg_inj.1 h⟩

/-! ## Integers -/

theorem magnitude_ofInt (n : Int) : (ofInt n).magnitude = n.natAbs := by
  rw [magnitude, ofInt, zpow_zero, mul_one]

theorem value_ofInt (n : Int) : (ofInt n).value = n := by
  rw [value, magnitude_ofInt]
  by_cases hn : n < 0
  · have habs : ((n.natAbs : Int) : ℚ) = -n := by
      rw [Int.ofNat_natAbs_of_nonpos hn.le, Int.cast_neg]
    simp only [ofInt, hn, decide_true, reduceIte]
    rw [neg_eq_iff_eq_neg]
    exact habs
  · have habs : ((n.natAbs : Int) : ℚ) = n := by
      rw [Int.natAbs_of_nonneg (Int.not_lt.1 hn)]
    simp only [ofInt, hn, decide_false, Bool.false_eq_true, reduceIte]
    exact habs

/-- The integers up to `2 ^ precision` are their own nearest numbers: the last of them ends in a
zero bit. -/
theorem nearestInt_of_le {precision : Nat} {n : Int} (hprecision : 0 < precision)
    (h : n.natAbs ≤ 2 ^ precision) :
    (nearestInt precision n).negative = (ofInt n).negative ∧
      (nearestInt precision n).magnitude = (ofInt n).magnitude := by
  rcases Nat.lt_or_eq_of_le h with hlt | heq
  · have hsame : nearestInt precision n = ofInt n := if_pos hlt
    exact ⟨congrArg negative hsame, congrArg magnitude hsame⟩
  · obtain ⟨p, rfl⟩ := Nat.exists_eq_succ_of_ne_zero hprecision.ne'
    have hdrop : n.natAbs.log2 + 1 - (p + 1) = 1 := by
      rw [heq, Nat.log2_two_pow]
      omega
    have hquotient : n.natAbs / 2 ^ 1 = 2 ^ p := by
      rw [heq, Nat.pow_succ, Nat.pow_one, Nat.mul_div_cancel _ two_pos]
    have hrest : n.natAbs % 2 ^ 1 = 0 := by
      rw [heq, Nat.pow_succ, Nat.pow_one, Nat.mul_mod_left]
    have hmagnitude : (ofInt n).magnitude = 2 ^ p * 2 := by
      rw [magnitude_ofInt, heq, Nat.pow_succ]
      push_cast
      rfl
    rw [hmagnitude]
    unfold nearestInt magnitude
    simp only [Nat.pow_eq, Nat.succ_eq_add_one] at heq ⊢
    rw [if_neg (by omega), hdrop, hquotient, hrest]
    simp [ofInt]

end Scaled

open Scaled

/-- The integers up to a bit more than the fraction has are numbers of the format. -/
theorem Format.exists_pack?_ofInt {f : Format} {n : Int} (hrange : f.fractionBits < f.bias)
    (h : n.natAbs ≤ 2 ^ (f.fractionBits + 1)) : ∃ bits, f.pack? (.ofInt n) = some bits := by
  by_cases hzero : n.natAbs = 0
  · exact ⟨_, pack?_of_zero hzero⟩
  · have htop : (ofInt n).top = n.natAbs.log2 := by
      rw [top, ofInt, zero_add]
    have hlog : n.natAbs.log2 < f.fractionBits + 2 := by
      rw [Nat.log2_lt hzero, Nat.pow_succ]
      omega
    have hplace : f.lastPlace (ofInt n).top = max ((ofInt n).top - f.fractionBits) f.minPlace := rfl
    have hmin : f.minPlace = 1 - (f.bias : Int) - f.fractionBits := rfl
    rw [pack?_of_ne_zero hzero, if_neg (by omega)]
    -- all are whole multiples of the last place, also the last one, which is twice another
    obtain ⟨m, hm⟩ : ∃ m, (ofInt n).multipleOf? (f.lastPlace (ofInt n).top) = some m := by
      rcases Nat.lt_or_eq_of_le h with hlt | heq
      · have hsmall : n.natAbs.log2 < f.fractionBits + 1 := (Nat.log2_lt hzero).2 hlt
        have hle : f.lastPlace (ofInt n).top ≤ (ofInt n).exponent := by
          show _ ≤ (0 : Int)
          omega
        exact ⟨_, if_pos hle⟩
      · have hlast : f.lastPlace (ofInt n).top = 1 := by
          rw [heq, Nat.log2_two_pow] at htop
          omega
        refine ⟨2 ^ f.fractionBits, multipleOf?_eq_some.2 ?_⟩
        rw [hlast, magnitude_ofInt, heq, Nat.pow_succ]
        push_cast
        rfl
    rw [hm]
    exact ⟨_, rfl⟩

namespace Binary64

variable {s : Scaled} {x y : Binary64}

/-- The rational number that a double is. -/
def value (x : Binary64) : ℚ :=
  x.toScaled.value

/-- Bits of a finite number are read as a double that is that number, those of the negative zero
too. -/
theorem ofBits?_of_unpack {bits : UInt64} (h : Format.double.unpack bits.toNat = some s) :
    ∃ x, ofBits? bits = some x ∧ x.value = s.value := by
  by_cases hzero : bits = negativeZero
  · refine ⟨zero, dif_pos hzero, ?_⟩
    have hs : s.magnitude = 0 := by
      rw [hzero] at h
      obtain rfl := Option.some.inj (h.symm.trans (by decide :
        Format.double.unpack negativeZero.toNat = some ⟨true, 0, -1074⟩))
      exact magnitude_eq_zero.2 rfl
    have hx : zero.toScaled.magnitude = 0 := magnitude_eq_zero.2 (by decide)
    rw [value, value_eq_zero.2 hx, value_eq_zero.2 hs]
  · have hfinite : (Format.double.unpack bits.toNat).isSome = true := by
      rw [h]
      rfl
    refine ⟨⟨bits, hfinite, hzero⟩, ?_, ?_⟩
    · rw [ofBits?, dif_neg hzero, dif_pos hfinite]
    · show ((Format.double.unpack bits.toNat).get hfinite).value = s.value
      simp only [h, Option.get_some]

/-- A number of the format is read as the double that is that number. -/
theorem exists_ofScaled? {bits : Nat} (h : Format.double.pack? s = some bits) :
    ∃ x, ofScaled? s = some x ∧ x.value = s.value := by
  have hwidth : 0 < Format.double.exponentBits := by decide
  obtain ⟨y, hunpack, hnegative, hmagnitude⟩ := Format.unpack_of_pack? hwidth h
  have hbits : (UInt64.ofNat bits).toNat = bits :=
    UInt64.toNat_ofNat_of_lt' (Format.pack?_lt hwidth h)
  rw [← hbits] at hunpack
  obtain ⟨x, hx, hvalue⟩ := ofBits?_of_unpack hunpack
  refine ⟨x, ?_, hvalue.trans (value_congr hnegative hmagnitude)⟩
  rw [ofScaled?, h]
  exact hx

theorem eq_zero_of_value (h : x.value = 0) : x = zero := by
  have hpack := Format.pack?_of_unpack (by decide) x.bits.toNat_lt x.unpack_bits
  rw [Format.pack?_of_zero (magnitude_eq_zero.1 (value_eq_zero.1 h))] at hpack
  have hbits := Option.some.inj hpack
  refine ext (UInt64.toNat_inj.1 ?_)
  cases hsign : x.toScaled.negative with
  | false =>
    rw [hsign] at hbits
    exact hbits.symm
  | true =>
    -- these are the bits that no double has here
    rw [hsign] at hbits
    exact absurd (UInt64.toNat_inj.1 hbits.symm) x.ne_negativeZero

/-- There is one double for each number, zero included. -/
theorem value_inj : x.value = y.value ↔ x = y := by
  constructor
  · intro h
    by_cases hzero : x.value = 0
    · rw [eq_zero_of_value hzero, eq_zero_of_value (h.symm.trans hzero)]
    · obtain ⟨hnegative, hmagnitude⟩ := eq_of_value h hzero
      exact Option.some.inj
        ((ofScaled?_eq_some rfl rfl).symm.trans (ofScaled?_eq_some hnegative hmagnitude))
  · exact congrArg value

end Binary64

end Number

open RowFilter.Number

/-! ## Integers as doubles -/

/-- Within the bound every integer is a double, so rounding to the nearest one gives the integer
itself. -/
theorem exactDouble?_of_le {n : Int} (h : n.natAbs ≤ exactIntegerBound) :
    ∃ x, exactDouble? n = some x ∧ x.value = n := by
  have hbound : n.natAbs ≤ 2 ^ (Format.double.fractionBits + 1) := h
  obtain ⟨bits, hpack⟩ := Format.exists_pack?_ofInt (by decide) hbound
  obtain ⟨hnegative, hmagnitude⟩ := Scaled.nearestInt_of_le (Nat.succ_pos _) hbound
  -- rounding keeps the number, so it is packed as the number is
  have hnearest : Binary64.nearestInt? n = Binary64.ofScaled? (.ofInt n) := by
    rw [Binary64.nearestInt?, Binary64.ofScaled?, Binary64.ofScaled?,
      Format.pack?_congr (by decide) hnegative hmagnitude]
  obtain ⟨x, hx, hvalue⟩ := Binary64.exists_ofScaled? hpack
  refine ⟨x, ?_, hvalue.trans (Scaled.value_ofInt n)⟩
  rw [exactDouble?, if_pos h, hnearest, hx]

/-- Beyond the bound no integer is taken for a double, and within it none is changed. -/
theorem value_of_exactDouble? {n : Int} {x : Binary64} (h : exactDouble? n = some x) :
    x.value = n := by
  obtain ⟨hbound, -⟩ := Option.ite_none_right_eq_some.1 h
  obtain ⟨y, hy, hvalue⟩ := exactDouble?_of_le hbound
  obtain rfl := Option.some.inj (h.symm.trans hy)
  exact hvalue

/-! ## What values denote -/

/-- What a value is, whichever kind of value says it. -/
inductive Denotation where
  | blob (bytes : List UInt8)
  | bool (b : Bool)
  | null
  | number (q : ℚ)
  | text (s : String)
  /-- Milliseconds since the epoch. -/
  | timestamp (n : Int)

namespace Value

variable {kind : ScalarKind} {nullable : Bool} {v w : Value}

/-- What the value denotes; integers and doubles denote numbers. -/
def denote : Value → Denotation
  | .blob bytes => .blob bytes
  | .bool b => .bool b
  | .float64 x => .number x.value
  | .int n => .number n.toInt
  | .null => .null
  | .text s => .text s
  | .timestamp n => .timestamp n.toInt
  | .uint n => .number n.toNat

theorem denote_eq_null : v.denote = .null ↔ v = .null := by
  cases v <;> simp [denote]

/-- Each kind of value says a thing in one way. -/
theorem denote_inj (hkind : v.kind? = w.kind?) : v.denote = w.denote ↔ v = w := by
  cases v <;> cases w <;>
    simp_all [kind?, denote, Binary64.value_inj, Int64.toInt_inj, UInt64.toNat_inj]

/-- An integer in range denotes the same as a signed value. -/
theorem denote_of_signed? {n : Int} (h : signed? n = some w) : w.denote = .number n := by
  obtain ⟨⟨hmin, hmax⟩, hw⟩ := Option.ite_none_right_eq_some.1 h
  obtain rfl := Option.some.inj hw
  rw [Int64.toInt_minValue] at hmin
  rw [Int64.toInt_maxValue] at hmax
  rw [denote, Int64.toInt_ofInt_of_le hmin (by omega)]

/-- An integer in range denotes the same as an unsigned value. -/
theorem denote_of_unsigned? {n : Int} (h : unsigned? n = some w) : w.denote = .number n := by
  obtain ⟨⟨hmin, hmax⟩, hw⟩ := Option.ite_none_right_eq_some.1 h
  obtain rfl := Option.some.inj hw
  have hsize : n.toNat < UInt64.size := by omega
  have hcast : ((n.toNat : Int) : ℚ) = n := by rw [Int.toNat_of_nonneg hmin]
  rw [denote, UInt64.toNat_ofNat_of_lt' hsize]
  exact congrArg Denotation.number hcast

/-- A coerced value denotes what the given value denotes. -/
theorem denote_of_coerce? (h : v.coerce? kind nullable = some w) : w.denote = v.denote := by
  -- only integers change their kind
  cases v with
  | int n =>
    cases kind with
    | int =>
      obtain rfl := Option.some.inj h
      rfl
    | uint => exact denote_of_unsigned? h
    | float64 =>
      obtain ⟨x, hx, rfl⟩ := Option.map_eq_some_iff.1 h
      exact congrArg Denotation.number (value_of_exactDouble? hx)
    | _ => exact nomatch h
  | uint n =>
    cases kind with
    | uint =>
      obtain rfl := Option.some.inj h
      rfl
    | int => exact denote_of_signed? h
    | float64 =>
      obtain ⟨x, hx, rfl⟩ := Option.map_eq_some_iff.1 h
      exact congrArg Denotation.number (value_of_exactDouble? hx)
    | _ => exact nomatch h
  | _ =>
    obtain ⟨-, hw⟩ := Option.ite_none_right_eq_some.1 h
    obtain rfl := Option.some.inj hw
    rfl

/-- Null comes from null alone, and only where the property is nullable. -/
theorem coerce?_eq_null :
    v.coerce? kind nullable = some .null ↔ v = .null ∧ nullable = true := by
  constructor
  · intro h
    have hv : v = .null := denote_eq_null.1 (denote_of_coerce? h).symm
    rw [hv] at h
    exact ⟨hv, (Option.ite_none_right_eq_some.1 h).1⟩
  · rintro ⟨rfl, hnullable⟩
    exact if_pos hnullable

/-- Coerced values are equal exactly if the given values denote the same. -/
theorem coerce?_eq_iff {nullable' : Bool} {v' w' : Value} (h : v.coerce? kind nullable = some w)
    (h' : v'.coerce? kind nullable' = some w') : w = w' ↔ v.denote = v'.denote := by
  rw [← denote_of_coerce? h, ← denote_of_coerce? h']
  refine ⟨congrArg denote, fun hsame => ?_⟩
  rcases kind?_of_coerce? h with hkind | ⟨rfl, -⟩
  · rcases kind?_of_coerce? h' with hkind' | ⟨rfl, -⟩
    · exact (denote_inj (hkind.trans hkind'.symm)).1 hsame
    · exact denote_eq_null.1 hsame
  · exact (denote_eq_null.1 hsame.symm).symm

example : ∃ x, (Value.int 9007199254740992).coerce? .float64 false = some x ∧
    (Value.uint 9007199254740992).coerce? .float64 false = some x :=
  ⟨_, rfl, by decide +kernel⟩

end Value

/-! ## Comparisons with constants -/

theorem Chain.coerce_eq_ok {c : Chain} {v w : Value} :
    c.coerce v = .ok w ↔ ∃ kind, c.final.property.kind.scalar? = some kind ∧
      v.coerce? kind c.final.property.nullable = some w := by
  unfold coerce
  cases c.final.property.kind.scalar? with
  | none => simp
  | some kind => cases hv : v.coerce? kind c.final.property.nullable <;> simp [hv]

/-- A comparison with a constant is one with the coerced value, at the chain that the path
spells. -/
theorem Context.constant_eq_ok {ctx : Context} {entity path : String} {op : RelOp} {v : Value}
    {f : Filter} :
    ctx.builder.constant entity path op v = .ok f ↔ ∃ e r w, ctx.entity entity = .ok e ∧
      ctx.schema.chainFor e .comparison path = .ok r ∧ r.chain.coerce v = .ok w ∧
      f = .compare ⟨e.name, ⟨r.chain, op⟩, .constant w⟩ := by
  constructor
  · intro h
    obtain ⟨e, he, h⟩ := bind_eq_ok.1 h
    obtain ⟨r, hr, h⟩ := bind_eq_ok.1 h
    obtain ⟨w, hw, h⟩ := bind_eq_ok.1 h
    rw [Builder.entity, ofExcept_eq] at he
    rw [ofExcept_eq] at hr hw
    exact ⟨e, r, w, he, hr, hw, (Except.ok.inj h).symm⟩
  · rintro ⟨e, r, w, he, hr, hw, rfl⟩
    rw [Builder.constant, Builder.entity]
    simp only [ofExcept_eq]
    exact bind_eq_ok.2 ⟨e, he, bind_eq_ok.2 ⟨r, hr, bind_eq_ok.2 ⟨w, hw, rfl⟩⟩⟩

/-- Two constants at one place are one filter exactly if the values denote the same. -/
theorem Context.constant_eq_iff {ctx : Context} {entity path : String} {op : RelOp}
    {v v' : Value} {f f' : Filter} (h : ctx.builder.constant entity path op v = .ok f)
    (h' : ctx.builder.constant entity path op v' = .ok f') : f = f' ↔ v.denote = v'.denote := by
  obtain ⟨e, r, w, he, hr, hw, rfl⟩ := constant_eq_ok.1 h
  obtain ⟨e', r', w', he', hr', hw', rfl⟩ := constant_eq_ok.1 h'
  obtain rfl := Except.ok.inj (he.symm.trans he')
  obtain rfl := Except.ok.inj (hr.symm.trans hr')
  obtain ⟨kind, hkind, hw⟩ := Chain.coerce_eq_ok.1 hw
  obtain ⟨kind', hkind', hw'⟩ := Chain.coerce_eq_ok.1 hw'
  obtain rfl := Option.some.inj (hkind.symm.trans hkind')
  rw [← Value.coerce?_eq_iff hw hw']
  simp

namespace Pool

variable {ctx : Context} {pool : Pool} {held : List Instance}

/-- A coerced value is of the kind of the property, or null where that may be, denotes what the
given value denotes, and is coerced to itself; values coerced to one kind are equal exactly if
they denoted the same. So comparisons of one property by one operator with two constants, asked
for in a session one after the other, are one instance exactly if the constants denote the
same. -/
theorem Reached.constants_denote (h : Reached ctx pool held) :
    (∀ {v w : Value} {kind : ScalarKind} {nullable : Bool}, v.coerce? kind nullable = some w →
      (w = .null → v = .null ∧ nullable = true) ∧
        (w ≠ .null → w.kind? = some kind ∧ w.denote = v.denote) ∧
        w.coerce? kind nullable = some w) ∧
      (∀ {v v' w w' : Value} {kind : ScalarKind} {nullable nullable' : Bool},
        v.coerce? kind nullable = some w → v'.coerce? kind nullable' = some w' →
          (w = w' ↔ v.denote = v'.denote)) ∧
      ∀ {entity path : String} {op : RelOp} {v v' : Value} {i j : Instance}
        {pool₁ pool₂ pool₃ : Pool} {held₂ : List Instance},
        (serve ctx (.constant entity path op v)).run pool = (.ok [i], pool₁) →
          Leads ctx pool₁ (i :: held) pool₂ held₂ →
          (serve ctx (.constant entity path op v')).run pool₂ = (.ok [j], pool₃) →
          (i = j ↔ v.denote = v'.denote) := by
  refine ⟨fun {v w kind nullable} hw => ⟨?_, ?_, Value.coerce?_idem hw⟩, Value.coerce?_eq_iff, ?_⟩
  · rintro rfl
    exact Value.coerce?_eq_null.1 hw
  · intro hne
    have hkind := (Value.kind?_of_coerce? hw).resolve_right fun hnull => hne hnull.1
    exact ⟨hkind, Value.denote_of_coerce? hw⟩
  · intro entity path op v v' i j pool₁ pool₂ pool₃ held₂ hi hleads hj
    obtain ⟨i', hsingle, hfilter, hreached⟩ := h.of_run_one (by simp [Query.arguments]) rfl hi
    obtain rfl := List.singleton_inj.1 hsingle
    obtain ⟨j', hsingle', hfilter', hreached'⟩ :=
      (hleads.reached hreached).of_run_one (by simp [Query.arguments]) rfl hj
    obtain rfl := List.singleton_inj.1 hsingle'
    -- one filter is one instance, and the filters differ in their constants alone
    have hi' : i ∈ j :: held₂ := List.mem_cons_of_mem _ (hleads.mem i List.mem_cons_self)
    rw [← Context.constant_eq_iff hfilter hfilter']
    exact ⟨congrArg Instance.filter, hreached'.eq_of_filter_eq hi' List.mem_cons_self⟩

/-- The comparison of the total of an order with a constant. -/
def Sample.fixed (n : Int64) : Filter :=
  .compare ⟨"order", ⟨⟨[], ⟨⟨⟨"total", .scalar .int, false⟩, "order"⟩, false⟩⟩, .eq⟩,
    .constant (.int n)⟩

/-- A total is compared with one constant, whether the integer is signed or not, and with
another one of the other sign. -/
theorem Sample.constants_denote_given :
    ∃ i j k pool₁ pool₂ pool₃,
      (serve Sample.context (.constant "order" "total" .eq (.int 5))).run Sample.after =
        (.ok [i], pool₁) ∧
      (serve Sample.context (.constant "order" "total" .eq (.uint 5))).run pool₁ =
        (.ok [j], pool₂) ∧
      (serve Sample.context (.constant "order" "total" .eq (.int (-5)))).run pool₁ =
        (.ok [k], pool₃) ∧ i = j ∧ i ≠ k := by
  obtain ⟨i, pool₁, hi, -, hreached⟩ := Reached.serve_one Sample.reached
    (q := .constant "order" "total" .eq (.int 5)) (by simp [Query.arguments])
    (f := Sample.fixed 5) (by decide +kernel)
  obtain ⟨j, pool₂, hj, -, -⟩ := hreached.serve_one
    (q := .constant "order" "total" .eq (.uint 5)) (by simp [Query.arguments])
    (f := Sample.fixed 5) (by decide +kernel)
  obtain ⟨k, pool₃, hk, -, -⟩ := hreached.serve_one
    (q := .constant "order" "total" .eq (.int (-5))) (by simp [Query.arguments])
    (f := Sample.fixed (-5)) (by decide +kernel)
  obtain ⟨-, -, hsame⟩ := Reached.constants_denote Sample.reached
  refine ⟨i, j, k, pool₁, pool₂, pool₃, hi, hj, hk, ?_, ?_⟩
  · exact (hsame hi .refl hj).2 rfl
  · intro heq
    have hnumber := Denotation.number.inj ((hsame hi .refl hk).1 heq)
    exact absurd (Int.cast_injective hnumber) (by decide)

end Pool

end RowFilter
