import QueryTree.Proofs.Quoted
import QueryTree.Text.Utf8

/-!
# Reading a character

A character is read from one ASCII byte, or from a lead byte and one, two or three bytes that
continue it. `Text.Leads` lists these ways, each with the range of its lead byte and with the bounds
that exclude overlong forms, surrogates and numbers that are too large. Every fact about reading is
a case analysis on it.

What is read is decided by the bytes that are taken. So a character is written with the bytes that
it was read from, it is read whatever follows them, and a character that is cut off is completed by
bytes that continue it only.

## Main definitions

* `Text.Leads`: how the character at the head of a text is read

## Main results

* `Text.leadingChar?_eq_some_iff`: these are all the ways
* `Text.leadingChar?_append`: what completes no character
* `Text.toNat_of_leadingChar?`: an ASCII character is read from an ASCII byte
* `Text.ofChar_of_leadingChar?`, `Text.leadingChar?_ofChar`: writing is the inverse of reading
-/

namespace QueryTree.Text

/-! ### The ways to read a character -/

/-- How the character at the head of a text is read: from its lead byte and what follows it. -/
inductive Leads (b : UInt8) : Text → Char → Nat → Prop
  | one (rest : Text) (hb : b < 0x80) : Leads b rest (Char.ofNat b.toNat) 0
  | two {x : UInt8} {n : Nat} (rest : Text) (low : ¬ b < 0xc2) (high : b < 0xe0)
      (hx : isContinuation x = true) (hn : n = (b &&& 0x1f).toNat * 64 + continuationBits x) :
      Leads b (x :: rest) (Char.ofNat n) 1
  | three {x y : UInt8} {n : Nat} (rest : Text) (low : ¬ b < 0xe0) (high : b < 0xf0)
      (hx : isContinuation x = true) (hy : isContinuation y = true)
      (hn : n = (b &&& 0x0f).toNat * 4096 + continuationBits x * 64 + continuationBits y)
      (hmin : 0x800 ≤ n) (hvalid : n < 0xd800 ∨ 0xdfff < n) :
      Leads b (x :: y :: rest) (Char.ofNat n) 2
  | four {x y z : UInt8} {n : Nat} (rest : Text) (low : ¬ b < 0xf0) (high : b < 0xf5)
      (hx : isContinuation x = true) (hy : isContinuation y = true) (hz : isContinuation z = true)
      (hn : n = (b &&& 0x07).toNat * 262144 + continuationBits x * 4096 + continuationBits y * 64
        + continuationBits z)
      (hmin : 0x10000 ≤ n) (hmax : n ≤ 0x10ffff) : Leads b (x :: y :: z :: rest) (Char.ofNat n) 3

variable {b : UInt8} {rest t u : Text} {c : Char} {width : Nat}

theorem leads_of_leadingChar? (h : leadingChar? b rest = some (c, width)) :
    Leads b rest c width := by
  unfold leadingChar? at h
  split at h
  · rename_i hb
    cases h
    exact .one rest hb
  split at h
  · cases h
  rename_i low
  split at h
  · rename_i high
    split at h
    · split at h
      · rename_i hx
        cases h
        exact .two _ low high hx rfl
      · cases h
    · cases h
  rename_i low
  split at h
  · rename_i high
    split at h
    · simp only at h
      split at h
      · rename_i hn
        simp only [Bool.and_eq_true, Bool.or_eq_true, decide_eq_true_eq] at hn
        obtain ⟨⟨⟨hx, hy⟩, hmin⟩, hvalid⟩ := hn
        cases h
        exact .three _ low high hx hy rfl hmin hvalid
      · cases h
    · cases h
  rename_i low
  split at h
  · rename_i high
    split at h
    · simp only at h
      split at h
      · rename_i hn
        simp only [Bool.and_eq_true, decide_eq_true_eq] at hn
        obtain ⟨⟨⟨⟨hx, hy⟩, hz⟩, hmin⟩, hmax⟩ := hn
        cases h
        exact .four _ low high hx hy hz rfl hmin hmax
      · cases h
    · cases h
  · cases h

theorem Leads.leadingChar? (h : Leads b rest c width) :
    leadingChar? b rest = some (c, width) := by
  have above : ∀ {l m : UInt8}, l ≤ m → ¬ b < m → ¬ b < l := fun hlm hm hl =>
    hm (UInt8.lt_of_lt_of_le hl hlm)
  cases h with
  | one rest hb => simp only [Text.leadingChar?, hb, if_true]
  | two rest low high hx hn =>
    rw [Text.leadingChar?, if_neg (above (by decide) low), if_neg low, if_pos high]
    simp only [hx, if_true, hn]
  | three rest low high hx hy hn hmin hvalid =>
    rw [Text.leadingChar?, if_neg (above (by decide) low), if_neg (above (by decide) low),
      if_neg low, if_pos high]
    simp only [hx, hy, ← hn, hmin, hvalid, Bool.and_self, decide_true,
      ← Bool.decide_or, if_true]
  | four rest low high hx hy hz hn hmin hmax =>
    rw [Text.leadingChar?, if_neg (above (by decide) low), if_neg (above (by decide) low),
      if_neg (above (by decide) low), if_neg low, if_pos high]
    simp only [hx, hy, hz, ← hn, hmin, hmax, Bool.and_self, decide_true, if_true]

/-- **These are all the ways to read a character.** -/
theorem leadingChar?_eq_some_iff :
    leadingChar? b rest = some (c, width) ↔ Leads b rest c width :=
  ⟨leads_of_leadingChar?, Leads.leadingChar?⟩

/-! ### What follows a character -/

theorem Leads.append (h : Leads b t c width) (u : Text) : Leads b (t ++ u) c width := by
  cases h with
  | one _ hb => exact .one _ hb
  | two _ low high hx hn => exact .two _ low high hx hn
  | three _ low high hx hy hn hmin hvalid => exact .three _ low high hx hy hn hmin hvalid
  | four _ low high hx hy hz hn hmin hmax => exact .four _ low high hx hy hz hn hmin hmax

/-- A byte that continues a character stands before bytes that do not. -/
theorem eq_cons_of_append_eq {x : UInt8} (hu : ∀ y ∈ u, isContinuation y = false)
    (hx : isContinuation x = true) (h : t ++ u = x :: rest) :
    ∃ t', t = x :: t' ∧ t' ++ u = rest := by
  cases t with
  | nil =>
    have hcont := hu x (by rw [← List.nil_append u, h]; exact List.mem_cons_self)
    rw [hx] at hcont
    cases hcont
  | cons y t' =>
    obtain ⟨rfl, hrest⟩ := List.cons.inj h
    exact ⟨t', rfl, hrest⟩

theorem Leads.of_append (hu : ∀ x ∈ u, isContinuation x = false)
    (h : Leads b (t ++ u) c width) : Leads b t c width := by
  generalize hs : t ++ u = s at h
  cases h with
  | one _ hb => exact .one _ hb
  | two _ low high hx hn =>
    obtain ⟨t₁, rfl, -⟩ := eq_cons_of_append_eq hu hx hs
    exact .two _ low high hx hn
  | three _ low high hx hy hn hmin hvalid =>
    obtain ⟨t₁, rfl, hs₁⟩ := eq_cons_of_append_eq hu hx hs
    obtain ⟨t₂, rfl, -⟩ := eq_cons_of_append_eq hu hy hs₁
    exact .three _ low high hx hy hn hmin hvalid
  | four _ low high hx hy hz hn hmin hmax =>
    obtain ⟨t₁, rfl, hs₁⟩ := eq_cons_of_append_eq hu hx hs
    obtain ⟨t₂, rfl, hs₂⟩ := eq_cons_of_append_eq hu hy hs₁
    obtain ⟨t₃, rfl, -⟩ := eq_cons_of_append_eq hu hz hs₂
    exact .four _ low high hx hy hz hn hmin hmax

/-- **A character that is cut off is completed by bytes that continue it only.** -/
theorem leadingChar?_append (hu : ∀ x ∈ u, isContinuation x = false) (b : UInt8) (t : Text) :
    leadingChar? b (t ++ u) = leadingChar? b t := by
  refine Option.ext fun (c, width) => ?_
  rw [leadingChar?_eq_some_iff, leadingChar?_eq_some_iff]
  exact ⟨.of_append hu, fun h => h.append u⟩

/-! ### Which bytes a character takes -/

theorem le_of_isContinuation {b : UInt8} (h : isContinuation b = true) : 0x80 ≤ b := by
  have hall : ∀ b : UInt8, (!isContinuation b || decide (0x80 ≤ b)) = true :=
    forall_byte (by decide)
  simpa [h] using hall b

theorem leadingChar?_width_le (h : leadingChar? b rest = some (c, width)) :
    width ≤ rest.length := by
  cases leads_of_leadingChar? h <;> simp

/-- The bytes that a character takes beside its lead byte are not ASCII. -/
theorem leadingChar?_width (h : leadingChar? b rest = some (c, width)) :
    (∀ x ∈ rest.take width, ¬ x < 0x80) ∧ (b < 0x80 → c = Char.ofNat b.toNat) := by
  have below : ∀ {l : UInt8}, 0x80 ≤ l → ¬ b < l → b < 0x80 → c = Char.ofNat b.toNat :=
    fun hl hb hascii => absurd (UInt8.lt_of_lt_of_le hascii hl) hb
  cases leads_of_leadingChar? h with
  | one _ hb => exact ⟨by simp, fun _ => rfl⟩
  | two _ low high hx hn => exact ⟨by simpa using le_of_isContinuation hx, below (by decide) low⟩
  | three _ low high hx hy hn hmin hvalid =>
    exact ⟨by simpa using ⟨le_of_isContinuation hx, le_of_isContinuation hy⟩,
      below (by decide) low⟩
  | four _ low high hx hy hz hn hmin hmax =>
    exact ⟨by simpa using ⟨le_of_isContinuation hx, le_of_isContinuation hy,
      le_of_isContinuation hz⟩, below (by decide) low⟩

/-! ### The bits of bytes -/

theorem ofNat_continuationBits {b : UInt8} (h : isContinuation b = true) :
    continuationBits b < 64 ∧ UInt8.ofNat (continuationBits b + 128) = b := by
  have hall : ∀ b : UInt8, (!isContinuation b || (decide (continuationBits b < 64) &&
      UInt8.ofNat (continuationBits b + 128) == b)) = true := forall_byte (by decide)
  simpa [h] using hall b

/-- The low bits of the first of two, three and four bytes. -/
theorem lead_facts (b : UInt8) :
    (¬ b < 0xc2 → b < 0xe0 → 2 ≤ (b &&& 0x1f).toNat ∧ (b &&& 0x1f).toNat < 32 ∧
      UInt8.ofNat ((b &&& 0x1f).toNat + 192) = b) ∧
    (¬ b < 0xe0 → b < 0xf0 → (b &&& 0x0f).toNat < 16 ∧
      UInt8.ofNat ((b &&& 0x0f).toNat + 224) = b) ∧
    (¬ b < 0xf0 → b < 0xf5 → UInt8.ofNat ((b &&& 0x07).toNat + 240) = b) := by
  have hall : ∀ b : UInt8, decide _ = true := forall_byte (f := fun b => decide
    ((¬ b < 0xc2 → b < 0xe0 → 2 ≤ (b &&& 0x1f).toNat ∧ (b &&& 0x1f).toNat < 32 ∧
      UInt8.ofNat ((b &&& 0x1f).toNat + 192) = b) ∧
    (¬ b < 0xe0 → b < 0xf0 → (b &&& 0x0f).toNat < 16 ∧
      UInt8.ofNat ((b &&& 0x0f).toNat + 224) = b) ∧
    (¬ b < 0xf0 → b < 0xf5 → UInt8.ofNat ((b &&& 0x07).toNat + 240) = b))) (by decide)
  exact of_decide_eq_true (hall b)

theorem continuation_facts : ∀ x < 64, isContinuation (UInt8.ofNat (x + 128)) = true ∧
    continuationBits (UInt8.ofNat (x + 128)) = x := by
  decide

theorem lead_of_two : ∀ x < 32, 2 ≤ x → ¬ UInt8.ofNat (x + 192) < 0xc2 ∧
    UInt8.ofNat (x + 192) < 0xe0 ∧ (UInt8.ofNat (x + 192) &&& 0x1f).toNat = x := by
  decide

theorem lead_of_three : ∀ x < 16, ¬ UInt8.ofNat (x + 224) < 0xe0 ∧
    UInt8.ofNat (x + 224) < 0xf0 ∧ (UInt8.ofNat (x + 224) &&& 0x0f).toNat = x := by
  decide

theorem lead_of_four : ∀ x < 5, ¬ UInt8.ofNat (x + 240) < 0xf0 ∧
    UInt8.ofNat (x + 240) < 0xf5 ∧ (UInt8.ofNat (x + 240) &&& 0x07).toNat = x := by
  decide

/-! ### The code of a character -/

theorem toNat_ofNat_of_valid {n : Nat} (h : n.isValidChar) : (Char.ofNat n).toNat = n := by
  rw [Char.ofNat, dif_pos h]
  rfl

/-- Only an ASCII byte is read as an ASCII character. -/
theorem toNat_of_leadingChar? (h : leadingChar? b rest = some (c, width)) (hc : 0 < c.toNat)
    (hascii : c.toNat < 0x80) : b.toNat = c.toNat := by
  -- a number that is no character would be read as zero
  have hcode : ∀ n, c = Char.ofNat n → c.toNat = n := by
    rintro n rfl
    by_cases hvalid : n.isValidChar
    · exact toNat_ofNat_of_valid hvalid
    · rw [Char.ofNat, dif_neg hvalid] at hc
      cases hc
  cases leads_of_leadingChar? h with
  | one _ hb => exact (hcode _ rfl).symm
  | two _ low high hx hn =>
    have hbits := ((lead_facts b).1 low high).1
    have := hcode _ rfl
    omega
  | three _ low high hx hy hn hmin hvalid =>
    have := hcode _ rfl
    omega
  | four _ low high hx hy hz hn hmin hmax =>
    have := hcode _ rfl
    omega

/-! ### Writing a character -/

theorem ofChar_one {n : Nat} (h : n < 128) : ofChar (Char.ofNat n) = [UInt8.ofNat n] := by
  have hn := toNat_ofNat_of_valid (n := n) (.inl (by omega))
  unfold ofChar String.utf8EncodeChar
  simp only [show (Char.ofNat n).val.toNat = (Char.ofNat n).toNat from rfl, hn]
  rw [if_pos (by omega)]

theorem ofChar_two {a b : Nat} (ha : 2 ≤ a) (ha' : a < 32) (hb : b < 64) :
    ofChar (Char.ofNat (a * 64 + b)) = [UInt8.ofNat (a + 192), UInt8.ofNat (b + 128)] := by
  have hn := toNat_ofNat_of_valid (n := a * 64 + b) (.inl (by omega))
  unfold ofChar String.utf8EncodeChar
  simp only [show (Char.ofNat (a * 64 + b)).val.toNat = (Char.ofNat (a * 64 + b)).toNat from rfl,
    hn]
  rw [if_neg (by omega), if_pos (by omega), show (a * 64 + b) / 64 % 32 = a by omega,
    show (a * 64 + b) % 64 = b by omega]

theorem ofChar_three {n a b c : Nat} (hn : n = a * 4096 + b * 64 + c) (ha : a < 16) (hb : b < 64)
    (hc : c < 64) (hmin : 0x800 ≤ n) (hvalid : n < 0xd800 ∨ 0xdfff < n) :
    ofChar (Char.ofNat n) =
      [UInt8.ofNat (a + 224), UInt8.ofNat (b + 128), UInt8.ofNat (c + 128)] := by
  have hcode := toNat_ofNat_of_valid (n := n) (hvalid.imp id fun h => ⟨h, by omega⟩)
  unfold ofChar String.utf8EncodeChar
  simp only [show (Char.ofNat n).val.toNat = (Char.ofNat n).toNat from rfl, hcode]
  rw [if_neg (by omega), if_neg (by omega), if_pos (by omega), show n / 4096 % 16 = a by omega,
    show n / 64 % 64 = b by omega, show n % 64 = c by omega]

theorem ofChar_four {n a b c d : Nat} (hn : n = a * 262144 + b * 4096 + c * 64 + d)
    (hb : b < 64) (hc : c < 64) (hd : d < 64) (hmin : 0x10000 ≤ n) (hmax : n ≤ 0x10ffff) :
    ofChar (Char.ofNat n) = [UInt8.ofNat (a + 240), UInt8.ofNat (b + 128), UInt8.ofNat (c + 128),
      UInt8.ofNat (d + 128)] := by
  have hcode := toNat_ofNat_of_valid (n := n) (.inr ⟨by omega, by omega⟩)
  unfold ofChar String.utf8EncodeChar
  simp only [show (Char.ofNat n).val.toNat = (Char.ofNat n).toNat from rfl, hcode]
  rw [if_neg (by omega), if_neg (by omega), if_neg (by omega),
    show n / 262144 % 8 = a by omega, show n / 4096 % 64 = b by omega,
    show n / 64 % 64 = c by omega, show n % 64 = d by omega]

/-- A character is written with the bytes that it was read from. -/
theorem ofChar_of_leadingChar? (h : leadingChar? b rest = some (c, width)) :
    ofChar c = b :: rest.take width := by
  obtain ⟨two, three, four⟩ := lead_facts b
  cases leads_of_leadingChar? h with
  | one _ hb => rw [ofChar_one (UInt8.lt_iff_toNat_lt.mp hb), UInt8.ofNat_toNat, List.take_zero]
  | two _ low high hx hn =>
    obtain ⟨hle, hlt, hlead⟩ := two low high
    obtain ⟨hxlt, hxeq⟩ := ofNat_continuationBits hx
    rw [hn, ofChar_two hle hlt hxlt, hlead, hxeq]
    rfl
  | three _ low high hx hy hn hmin hvalid =>
    obtain ⟨hlt, hlead⟩ := three low high
    obtain ⟨hxlt, hxeq⟩ := ofNat_continuationBits hx
    obtain ⟨hylt, hyeq⟩ := ofNat_continuationBits hy
    rw [ofChar_three hn hlt hxlt hylt hmin hvalid, hlead, hxeq, hyeq]
    rfl
  | four _ low high hx hy hz hn hmin hmax =>
    obtain ⟨hxlt, hxeq⟩ := ofNat_continuationBits hx
    obtain ⟨hylt, hyeq⟩ := ofNat_continuationBits hy
    obtain ⟨hzlt, hzeq⟩ := ofNat_continuationBits hz
    rw [ofChar_four hn hxlt hylt hzlt hmin hmax, four low high, hxeq, hyeq, hzeq]
    rfl

/-- A character is read from the bytes it is written with, whatever follows. -/
theorem leadingChar?_ofChar (c : Char) (rest : Text) : ∃ b bs, ofChar c = b :: bs ∧
    leadingChar? b (bs ++ rest) = some (c, bs.length) := by
  have hvalid : c.toNat < 0xd800 ∨ 0xdfff < c.toNat ∧ c.toNat < 0x110000 := c.valid
  unfold ofChar String.utf8EncodeChar
  simp only [show c.val.toNat = c.toNat from rfl]
  generalize hn : c.toNat = n at hvalid
  obtain rfl : c = Char.ofNat n := by rw [← hn, Char.ofNat_toNat]
  split
  · rename_i hsmall
    have hsize : n < UInt8.size := Nat.lt_of_le_of_lt hsmall (by decide)
    have hb : UInt8.ofNat n < 0x80 := by
      rw [UInt8.lt_iff_toNat_lt, UInt8.toNat_ofNat_of_lt' hsize]
      exact Nat.lt_succ_of_le hsmall
    refine ⟨_, _, rfl, ?_⟩
    have hlead := (Leads.one rest hb).leadingChar?
    rwa [UInt8.toNat_ofNat_of_lt' hsize] at hlead
  split
  · obtain ⟨low, high, hbits⟩ := lead_of_two (n / 64 % 32) (by omega) (by omega)
    obtain ⟨hx, hxbits⟩ := continuation_facts (n % 64) (by omega)
    exact ⟨_, _, rfl, (Leads.two rest low high hx (by rw [hbits, hxbits]; omega)).leadingChar?⟩
  split
  · obtain ⟨low, high, hbits⟩ := lead_of_three (n / 4096 % 16) (by omega)
    obtain ⟨hx, hxbits⟩ := continuation_facts (n / 64 % 64) (by omega)
    obtain ⟨hy, hybits⟩ := continuation_facts (n % 64) (by omega)
    exact ⟨_, _, rfl, (Leads.three rest low high hx hy (by rw [hbits, hxbits, hybits]; omega)
      (by omega) (by omega)).leadingChar?⟩
  · obtain ⟨low, high, hbits⟩ := lead_of_four (n / 262144 % 8) (by omega)
    obtain ⟨hx, hxbits⟩ := continuation_facts (n / 4096 % 64) (by omega)
    obtain ⟨hy, hybits⟩ := continuation_facts (n / 64 % 64) (by omega)
    obtain ⟨hz, hzbits⟩ := continuation_facts (n % 64) (by omega)
    exact ⟨_, _, rfl, (Leads.four rest low high hx hy hz
      (by rw [hbits, hxbits, hybits, hzbits]; omega) (by omega) (by omega)).leadingChar?⟩

end QueryTree.Text
