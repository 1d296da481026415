import Mathlib.Data.List.Find
import QueryTree.Proofs.Emitted
import QueryTree.Proofs.RoundTrip
import QueryTree.Shell.Run

/-!
# Declared entities

A definition is checked, its fields are exported, and the exported names become the fields of a
record type. The checks see to it that there are fields, that no exported name is empty or occurs
twice, and that the types are known. A record type asks for more: its names are identifiers, and
none is the name of the marker that stands before the fields. Definitions that pass the checks and
fail these demands have no outcome at all.

Members are looked up by spelling, which is what is left of a name when joints and case do not
count. A field, its member and the column that the member suggests have the same spelling, and so
all three mean the first member that has it. The checks tell members apart exactly, so that two of
them may have one spelling, and then the second is out of reach.

## Main definitions

* `EntityDef.IsChecked`, `EntityDef.IsRecord`: what is checked, and what a record type asks for
* `Text.spelling`: a name without its joints and up to case

## Main results

* `EntityDef.members_eq_ok_iff`: the checks
* `EntityDef.member?_of_field`: what a field is found under
* `Session.definition_faults_iff`: definitions without an outcome
-/

namespace QueryTree

/-! ### ASCII characters -/

namespace CharClass

open Text

theorem forall_ascii {P : Char → Prop} (h : ∀ n < 0x80, P (Char.ofNat n)) {c : Char}
    (hc : c.toNat < 0x80) : P c := by
  have := h c.toNat hc
  rwa [Char.ofNat_toNat] at this

theorem foldKey_lower {c : Char} (hc : c.toNat < 0x80) : foldKey (lower c) = foldKey c :=
  forall_ascii (P := fun c => foldKey (lower c) = foldKey c) (by decide +kernel) hc

theorem lower_ascii {c : Char} (hc : c.toNat < 0x80) : (lower c).toNat < 0x80 :=
  forall_ascii (P := fun c => (lower c).toNat < 0x80) (by decide) hc

theorem isJoint_lower {c : Char} (hc : c.toNat < 0x80) :
    isJoint (.char (lower c)) = isJoint (.char c) :=
  forall_ascii (P := fun c => isJoint (.char (lower c)) = isJoint (.char c)) (by decide +kernel) hc

theorem isJoint_foldKey {c : Char} (hc : c.toNat < 0x80) :
    isJoint (.char (foldKey c)) = isJoint (.char c) :=
  forall_ascii (P := fun c => isJoint (.char (foldKey c)) = isJoint (.char c))
    (by decide +kernel) hc

theorem titleChar_ascii {c : Char} (hc : c.toNat < 0x80) :
    ∀ y ∈ titleChar c, y.toNat < 0x80 := by
  have hnone : ∀ {β : Type} {table : List (Nat × β)}, (∀ p ∈ table, 0x80 ≤ p.1) →
      table.lookup c.toNat = none := fun htable => by
    refine List.lookup_eq_none_iff.mpr fun p hp => ?_
    exact bne_iff_ne.mpr (Nat.ne_of_lt (Nat.lt_of_lt_of_le hc (htable p hp)))
  have hupper : (upper c).toNat < 0x80 :=
    forall_ascii (P := fun c => (upper c).toNat < 0x80) (by decide) hc
  rw [titleChar, hnone (by decide), hnone (by decide)]
  simpa using hupper

theorem not_mem_opening {c : Char} (hc : c.toNat < 0x80) : c.toNat ∉ opening := by
  have hall : ∀ n ∈ opening, 0x80 ≤ n := by decide +kernel
  intro h
  have := hall _ h
  omega

end CharClass

/-! ### Spelling -/

namespace Text

open CharClass

/-- What is left of a name when joints and case do not count. -/
def spelling (t : Text) : List Char := (t.chars.filter fun c => !isJoint (.char c)).map foldKey

theorem spelling_ofChars (cs : List Char) :
    (ofChars cs).spelling = (cs.filter fun c => !isJoint (.char c)).map foldKey := by
  rw [spelling, chars_ofChars]

/-- The characters of an ASCII text. -/
theorem exists_ofChars_of_isAscii {t : Text} (h : t.isAscii = true) :
    ∃ cs, t = ofChars cs ∧ ∀ c ∈ cs, c.toNat < 0x80 := by
  have hbyte : ∀ b : UInt8, (!decide (b < 0x80) || (ofChar (Char.ofNat b.toNat) == [b] &&
      decide ((Char.ofNat b.toNat).toNat < 0x80))) = true := forall_byte (by decide)
  induction t with
  | nil => exact ⟨[], rfl, nofun⟩
  | cons b t ih =>
    rw [isAscii, List.all_cons, Bool.and_eq_true, decide_eq_true_eq] at h
    obtain ⟨cs, ht, hcs⟩ := ih h.2
    have hb := hbyte b
    simp only [h.1, decide_true, Bool.not_true, Bool.false_or, Bool.and_eq_true, beq_iff_eq,
      decide_eq_true_eq] at hb
    refine ⟨Char.ofNat b.toNat :: cs, ?_, List.forall_mem_cons.mpr ⟨hb.2, hcs⟩⟩
    rw [ofChars, List.flatMap_cons, hb.1, ht]
    rfl

theorem isAscii_ofChars {cs : List Char} (h : ∀ c ∈ cs, c.toNat < 0x80) :
    (ofChars cs).isAscii = true := by
  refine List.all_eq_true.mpr fun b hb => ?_
  obtain ⟨c, hc, hb⟩ := List.mem_flatMap.mp hb
  have hchar : (ofChar c).isAscii = true :=
    forall_ascii (P := fun c => (ofChar c).isAscii = true) (by decide +kernel) (h c hc)
  exact List.all_eq_true.mp hchar b hb

theorem titleRun_ascii {cs : List Char} (h : ∀ c ∈ cs, c.toNat < 0x80) (w a : Bool) :
    ∀ x ∈ (titleRun w a cs).1, x.toNat < 0x80 := by
  induction cs generalizing w a with
  | nil => nofun
  | cons c cs ih =>
    rw [List.forall_mem_cons] at h
    simp only [titleRun, List.forall_mem_append]
    refine ⟨?_, ih h.2 _ _⟩
    simp only [titleStep]
    split
    · split
      · exact List.forall_mem_singleton.mpr h.1
      · exact titleChar_ascii h.1
    · exact List.forall_mem_singleton.mpr h.1

/-- Exporting an ASCII name gives an ASCII name without joints and of the same spelling. -/
theorem exported_ascii {t : Text} (h : t.isAscii = true) : ∃ cs, t.exported = ofChars cs ∧
    (∀ c ∈ cs, c.toNat < 0x80 ∧ isJoint (.char c) = false) ∧ cs.map foldKey = t.spelling := by
  obtain ⟨cs, rfl, hcs⟩ := exists_ofChars_of_isAscii h
  obtain ⟨parts, hexported, hflatten⟩ := exists_exported_ofChars cs
  have hpart : ∀ part ∈ parts, ∀ c ∈ part, c.toNat < 0x80 := by
    intro part hpart c hc
    have hmem : c ∈ parts.flatten := List.mem_flatten.mpr ⟨part, hpart, hc⟩
    rw [hflatten] at hmem
    exact hcs c (List.mem_filter.mp hmem).1
  refine ⟨_, hexported, fun c hc => ⟨?_, ?_⟩, ?_⟩
  · obtain ⟨part, hmem, hc⟩ := List.mem_flatMap.mp hc
    exact titleRun_ascii (hpart part hmem) false false c hc
  · have hmem : c ∈ (ofChars cs).exported.chars := by rwa [hexported, chars_ofChars]
    exact isJoint_of_mem_exported hmem
  · rw [spelling_ofChars, ← hflatten, List.map_flatMap, List.map_flatten, List.flatMap_def]
    refine congrArg _ (List.map_congr_left fun part hmem => ?_)
    refine map_foldKey_titleRun (fun c hc => ?_) false false
    have hsmall := hpart part hmem c hc
    exact ⟨by omega, not_mem_opening hsmall⟩

theorem spelling_exported {t : Text} (h : t.isAscii = true) :
    t.exported.isAscii = true ∧ t.exported.spelling = t.spelling := by
  obtain ⟨cs, hcs, hall, hfold⟩ := exported_ascii h
  rw [hcs]
  refine ⟨isAscii_ofChars fun c hc => (hall c hc).1, ?_⟩
  rw [← hfold, spelling_ofChars, List.filter_eq_self.mpr fun c hc => by rw [(hall c hc).2]; rfl]

/-- Snake case inserts joints and changes the case of letters. -/
theorem snakeFrom_ascii {cs : List Char} (h : ∀ c ∈ cs, c.toNat < 0x80) (before : Option Char) :
    (∀ c ∈ Mapping.snakeFrom before cs, c.toNat < 0x80) ∧
    (ofChars (Mapping.snakeFrom before cs)).spelling = (ofChars cs).spelling := by
  simp only [spelling_ofChars]
  induction cs generalizing before with
  | nil => exact ⟨nofun, rfl⟩
  | cons c cs ih =>
    rw [List.forall_mem_cons] at h
    obtain ⟨hascii, hrest⟩ := ih h.2 (some c)
    unfold Mapping.snakeFrom
    split
    · have hnone : ∀ b : Bool,
          (∀ c ∈ if b = true then ['_'] else [], c.toNat < 0x80) ∧
          ((if b = true then ['_'] else []).filter fun c => !isJoint (.char c)) = [] := by
        intro b
        cases b with
        | false => exact ⟨nofun, rfl⟩
        | true => exact ⟨List.forall_mem_singleton.mpr (by decide), by decide⟩
      constructor
      · simp only [List.forall_mem_append, List.forall_mem_cons]
        exact ⟨(hnone _).1, lower_ascii h.1, hascii⟩
      · rw [List.filter_append, (hnone _).2, List.nil_append, List.filter_cons, List.filter_cons,
          isJoint_lower h.1]
        split <;> simp only [List.map_cons, foldKey_lower h.1, hrest]
    · refine ⟨List.forall_mem_cons.mpr ⟨h.1, hascii⟩, ?_⟩
      rw [List.filter_cons, List.filter_cons]
      split <;> simp only [List.map_cons, hrest]

theorem spelling_snake {t : Text} (h : t.isAscii = true) :
    (Mapping.snake t).isAscii = true ∧ (Mapping.snake t).spelling = t.spelling := by
  obtain ⟨cs, rfl, hcs⟩ := exists_ofChars_of_isAscii h
  rw [Mapping.snake, chars_ofChars]
  obtain ⟨hascii, hspelling⟩ := snakeFrom_ascii hcs none
  exact ⟨isAscii_ofChars hascii, hspelling⟩

/-- Exported names are equal up to case if the names have one spelling. -/
theorem exported_equalFold_exported_iff {t u : Text} (ht : t.isAscii = true)
    (hu : u.isAscii = true) :
    t.exported.equalFold u.exported = true ↔ t.spelling = u.spelling := by
  obtain ⟨cs, hcs, -, hkeys⟩ := exported_ascii ht
  obtain ⟨ds, hds, -, hkeys'⟩ := exported_ascii hu
  rw [equalFold_iff, hcs, hds, chars_ofChars, chars_ofChars, hkeys, hkeys']

/-- A name that is an exported name up to case has no joints either. -/
theorem spelling_eq_of_exported_equalFold {t u : Text} (ht : t.isAscii = true)
    (hu : u.isAscii = true) (h : t.exported.equalFold u = true) : t.spelling = u.spelling := by
  obtain ⟨cs, hcs, hall, hkeys⟩ := exported_ascii ht
  obtain ⟨ds, rfl, hascii⟩ := exists_ofChars_of_isAscii hu
  rw [equalFold_iff, hcs, chars_ofChars, chars_ofChars] at h
  have hjoint : ∀ d ∈ ds, isJoint (.char d) = false := by
    intro d hd
    have hmem : foldKey d ∈ cs.map foldKey := by
      rw [h]
      exact List.mem_map_of_mem hd
    obtain ⟨c, hc, hkey⟩ := List.mem_map.mp hmem
    rw [← isJoint_foldKey (hascii d hd), ← hkey, isJoint_foldKey (hall c hc).1, (hall c hc).2]
  rw [← hkeys, h, spelling_ofChars,
    List.filter_eq_self.mpr fun d hd => by rw [hjoint d hd]; rfl]

end Text

namespace Shell

namespace EntityDef

/-! ### Checks -/

/-- What is checked of a definition. -/
structure IsChecked (d : EntityDef) : Prop where
  hasFields : d.fields ≠ []
  named : ∀ f ∈ d.fields, f.name.exported ≠ []
  distinct : (d.fields.map (·.name.exported)).Nodup
  typed : ∀ f ∈ d.fields, (fieldType? f.type).isSome = true

/-- The exported names are names of fields, and none is that of the marker before them. -/
def IsRecord (d : EntityDef) : Prop :=
  ∀ f ∈ d.fields, Ty.isFieldName f.name.exported = true ∧ f.name.exported ≠ ("EntityMarker" : Text)

theorem isSome_type? (f : FieldDef) : f.type?.isSome = (fieldType? f.type).isSome := by
  rw [FieldDef.type?, Option.isSome_map]

theorem membersOf_eq_ok_iff {entity : Text} {seen : List Text} {fs : List FieldDef} :
    (∃ ms, membersOf entity seen fs = .ok ms) ↔
      (∀ f ∈ fs, f.name.exported ≠ [] ∧ f.name.exported ∉ seen ∧
        (fieldType? f.type).isSome = true) ∧
      (fs.map (·.name.exported)).Nodup := by
  induction fs generalizing seen with
  | nil => exact ⟨fun _ => ⟨nofun, .nil⟩, fun _ => ⟨[], rfl⟩⟩
  | cons f fs ih =>
    have hrest := @ih (f.name.exported :: seen)
    rw [membersOf]
    by_cases hempty : f.name.exported = []
    · simp [hempty]
    by_cases hseen : f.name.exported ∈ seen
    · simp [hempty, hseen]
    cases htype : f.type? with
    | none =>
      have hknown : (fieldType? f.type).isSome = false := by rw [← isSome_type?, htype]; rfl
      simp [hempty, hseen, hknown]
    | some t =>
      have hknown : (fieldType? f.type).isSome = true := by rw [← isSome_type?, htype]; rfl
      have hok : (∃ ms, (do
          let rest ← membersOf entity (f.name.exported :: seen) fs
          return (f.name.exported, t, f.tag) :: rest : Except DefinitionError _) = .ok ms) ↔
          ∃ ms, membersOf entity (f.name.exported :: seen) fs = .ok ms := by
        constructor
        · rintro ⟨ms, h⟩
          obtain ⟨rest, h, -⟩ := bind_eq_ok.mp h
          exact ⟨rest, h⟩
        · rintro ⟨rest, h⟩
          exact ⟨_, bind_eq_ok.mpr ⟨rest, h, rfl⟩⟩
      simp only [List.isEmpty_eq_false_iff.mpr hempty, List.elem_eq_mem, hseen, decide_false,
        Bool.false_eq_true, if_false]
      rw [hok, hrest]
      simp only [List.mem_cons, not_or, forall_eq_or_imp, List.map_cons, List.nodup_cons,
        List.mem_map, not_exists, not_and]
      constructor
      · rintro ⟨hall, hnodup⟩
        exact ⟨⟨⟨hempty, hseen, hknown⟩,
            fun g hg => ⟨(hall g hg).1, (hall g hg).2.1.2, (hall g hg).2.2⟩⟩,
          fun g hg => (hall g hg).2.1.1, hnodup⟩
      · rintro ⟨⟨-, hall⟩, hne, hnodup⟩
        exact ⟨fun g hg => ⟨(hall g hg).1, ⟨hne g hg, (hall g hg).2.1⟩, (hall g hg).2.2⟩, hnodup⟩

/-- **What is checked of a definition** is no more than this. -/
theorem members_eq_ok_iff {d : EntityDef} : (∃ ms, d.members = .ok ms) ↔ d.IsChecked := by
  unfold members
  by_cases hfields : d.fields = []
  · rw [hfields]
    exact ⟨fun ⟨_, h⟩ => (nomatch h), fun h => absurd hfields h.hasFields⟩
  · rw [List.isEmpty_eq_false_iff.mpr hfields, if_neg Bool.false_ne_true, membersOf_eq_ok_iff]
    constructor
    · rintro ⟨hall, hdistinct⟩
      exact ⟨hfields, fun f hf => (hall f hf).1, hdistinct, fun f hf => (hall f hf).2.2⟩
    · intro h
      exact ⟨fun f hf => ⟨h.named f hf, nofun, h.typed f hf⟩, h.distinct⟩

/-- What a record type asks of the members of a definition that is checked. -/
theorem recordOf?_eq_none_iff {d : EntityDef} {ms : List (Text × Ty × Text)}
    (h : d.members = .ok ms) :
    Ty.recordOf? (markerField d.name :: ms) = none ↔ ¬ d.IsRecord := by
  have hchecked : d.IsChecked := members_eq_ok_iff.mp ⟨ms, h⟩
  have hnames : ms.map (·.1) = d.fields.map (·.name.exported) := by
    unfold members at h
    split at h
    · cases h
    · exact map_membersOf h
  have hmarker : Ty.isFieldName ("EntityMarker" : Text) = true := by decide
  have hiff : ((markerField d.name :: ms).map (·.1)).all Ty.isFieldName = true ∧
      ((markerField d.name :: ms).map (·.1)).Nodup ↔ d.IsRecord := by
    rw [List.map_cons, hnames]
    simp only [markerField, List.all_cons, hmarker, Bool.true_and, List.all_map, List.all_eq_true,
      Function.comp_apply, List.nodup_cons, List.mem_map, not_exists, not_and, hchecked.distinct,
      and_true]
    exact ⟨fun ⟨hall, hne⟩ f hf => ⟨hall f hf, hne f hf⟩,
      fun hall => ⟨fun f hf => (hall f hf).1, fun f hf => (hall f hf).2⟩⟩
  rw [← hiff, Ty.recordOf?]
  simp

/-- A definition that passes the checks has a type if its names can be those of a record. -/
theorem declare_cases (d : EntityDef) :
    (¬ d.IsChecked ∧ ∃ e, d.declare = .fail e) ∨
    (d.IsChecked ∧ ¬ d.IsRecord ∧ d.declare = .fault) ∨
    (d.IsChecked ∧ d.IsRecord ∧ ∃ e, d.declare = .ok e) := by
  unfold declare
  cases hms : d.members with
  | error e =>
    refine .inl ⟨fun h => ?_, e, rfl⟩
    obtain ⟨ms, hok⟩ := members_eq_ok_iff.mpr h
    rw [hok] at hms
    cases hms
  | ok ms =>
    have hchecked := members_eq_ok_iff.mp ⟨ms, hms⟩
    have hnone := recordOf?_eq_none_iff hms
    dsimp only
    split
    · rename_i h
      exact .inr (.inl ⟨hchecked, hnone.mp h, rfl⟩)
    · rename_i t h
      refine .inr (.inr ⟨hchecked, ?_, _, rfl⟩)
      by_contra hrecord
      rw [hnone.mpr hrecord] at h
      cases h

theorem declare_eq_fault_iff {d : EntityDef} :
    d.declare = .fault ↔ d.IsChecked ∧ ¬ d.IsRecord := by
  rcases declare_cases d with ⟨hnot, e, h⟩ | ⟨hchecked, hrecord, h⟩ | ⟨hchecked, hrecord, e, h⟩
  · exact ⟨fun hfault => (nomatch h.symm.trans hfault), fun hfault => absurd hfault.1 hnot⟩
  · exact ⟨fun _ => ⟨hchecked, hrecord⟩, fun _ => h⟩
  · exact ⟨fun hfault => (nomatch h.symm.trans hfault), fun hfault => absurd hrecord hfault.2⟩

/-! ### Members by spelling -/

/-- A name means the first member that its exported form is up to case. -/
theorem member?_eq_find? {d : EntityDef} {e : Declared} (h : d.declare = .ok e)
    (hascii : ∀ f ∈ d.fields, f.name.isAscii = true) {t : Text} (ht : t.isAscii = true) :
    e.member? t = e.members.find? fun m => m.equalFold t.exported := by
  refine List.find?_congr fun m hm => ?_
  rw [(members_of_declare h).1] at hm
  obtain ⟨f, hf, rfl⟩ := List.mem_map.mp hm
  refine Bool.eq_iff_iff.mpr ?_
  rw [Bool.or_eq_true, or_iff_right_of_imp]
  intro hsame
  exact (Text.exported_equalFold_exported_iff (hascii f hf) ht).mpr
    (Text.spelling_eq_of_exported_equalFold (hascii f hf) ht hsame)

/-- **What a field is found under.** Let a definition be declared whose field names are made of
ASCII characters. The written name of a field, its member and the column that the member suggests
all mean one member, the first that is the field's own up to case. It is the field's own exactly if
the members of the fields before it are others even up to case. -/
theorem member?_of_field {d : EntityDef} {e : Declared} (h : d.declare = .ok e)
    (hascii : ∀ f ∈ d.fields, f.name.isAscii = true) {before behind : List FieldDef} {f : FieldDef}
    (hfields : d.fields = before ++ f :: behind) :
    (∀ t ∈ [f.name, f.name.exported, Mapping.snake f.name.exported],
      e.member? t = e.members.find? fun m => m.equalFold f.name.exported) ∧
    (e.member? f.name = some f.name.exported ↔
      ∀ g ∈ before, g.name.exported.equalFold f.name.exported = false) := by
  have hname : f.name.isAscii = true := hascii f (by rw [hfields]; simp)
  obtain ⟨hexported, hspelling⟩ := Text.spelling_exported hname
  obtain ⟨hsnake, hsnakeSpelling⟩ := Text.spelling_snake hexported
  have hmeans : ∀ t : Text, t.isAscii = true → t.spelling = f.name.spelling →
      e.member? t = e.members.find? fun m => m.equalFold f.name.exported := by
    intro t ht hsame
    rw [member?_eq_find? h hascii ht]
    have hfold := (Text.exported_equalFold_exported_iff ht hname).mpr hsame
    simp only [Text.equalFold_congr_right hfold]
  have hfirst := hmeans f.name hname rfl
  constructor
  · simp only [List.forall_mem_cons]
    exact ⟨hfirst, hmeans _ hexported hspelling, hmeans _ hsnake (hsnakeSpelling.trans hspelling),
      nofun⟩
  · have hdistinct : (d.fields.map (·.name.exported)).Nodup := by
      rcases declare_cases d with ⟨-, _, hfail⟩ | ⟨-, -, hfault⟩ | ⟨hchecked, -⟩
      · cases hfail.symm.trans h
      · cases hfault.symm.trans h
      · exact hchecked.distinct
    rw [hfields, List.map_append, List.map_cons, List.nodup_append] at hdistinct
    rw [hfirst, (members_of_declare h).1, hfields, List.map_append, List.map_cons,
      List.find?_append]
    constructor
    · intro hfound g hg
      rw [← Bool.not_eq_true]
      cases hfind : (before.map (·.name.exported)).find?
          (fun m => m.equalFold f.name.exported) with
      | none => exact List.find?_eq_none.mp hfind _ (List.mem_map_of_mem hg)
      | some m =>
        rw [hfind, Option.some_or, Option.some.injEq] at hfound
        exact absurd hfound
          (hdistinct.2.2 m (List.mem_of_find?_eq_some hfind) _ List.mem_cons_self)
    · intro hothers
      have hnone : (before.map (·.name.exported)).find?
          (fun m => m.equalFold f.name.exported) = none := by
        refine List.find?_eq_none.mpr fun m hm => ?_
        obtain ⟨g, hg, rfl⟩ := List.mem_map.mp hm
        rw [hothers g hg]
        exact Bool.false_ne_true
      have hself : f.name.exported.equalFold f.name.exported = true := beq_self_eq_true _
      rw [hnone, Option.none_or, List.find?_cons, hself]

/-- The customer of an order. -/
theorem member?_of_field_customer :
    (⟨"order", [], Sample.orderFields⟩ : EntityDef).declare = .ok Sample.orders ∧
    (∀ f ∈ Sample.orderFields, f.name.isAscii = true) ∧
    Sample.orders.member? "customer_id" = some ("CustomerId" : Text) ∧
    Sample.orders.member? "CustomerId" = some ("CustomerId" : Text) ∧
    Mapping.snake "CustomerId" = "customer_id" := by
  have hdeclare : (⟨"order", [], Sample.orderFields⟩ : EntityDef).declare = .ok Sample.orders := by
    decide +kernel
  have hexported : ("customer_id" : Text).exported = "CustomerId" := by decide +kernel
  have hfields : Sample.orderFields = [⟨"id", "int", [], true, true, false⟩] ++
      (⟨"customer_id", "int", [], false, false, false⟩ : FieldDef) ::
        [⟨"total", "float", [], false, false, false⟩] := rfl
  have hmember := member?_of_field hdeclare (by decide +kernel) hfields
  dsimp only at hmember
  rw [hexported] at hmember
  have hfirst := hmember.2.mpr (by decide +kernel)
  refine ⟨hdeclare, by decide +kernel, hfirst, ?_, by decide +kernel⟩
  rw [hmember.1 "CustomerId" (by simp), ← hmember.1 "customer_id" (by simp), hfirst]

/-- **A field that is never found.** Its member differs from that of the field before it by its case
only. -/
theorem exists_field_shadowed : ∃ d e, EntityDef.read "a name:string nAME:int" = .ok d ∧
    d.declare = .ok e ∧ e.members = (["Name", "NAME"] : List Text) ∧
    e.member? "nAME" = some ("Name" : Text) ∧ e.member? "NAME" = some ("Name" : Text) :=
  ⟨⟨"a", [], [⟨"name", "string", [], false, false, false⟩,
      ⟨"nAME", "int", [], false, false, false⟩]⟩,
    ⟨"a", "as", .record [⟨"EntityMarker", .record [], "db:\"-\" entity:\"a\"", false, true⟩,
      ⟨"Name", .string, "db:\"name\"", false, true⟩,
      ⟨"NAME", .int .int64, "db:\"n_ame\"", false, true⟩], ["Name", "NAME"]⟩,
    by decide +kernel, by decide +kernel, rfl, by decide +kernel, by decide +kernel⟩

end EntityDef

/-! ### Definitions in a session -/

namespace Session

theorem define_eq_fault_iff {s : Session} {d : EntityDef} :
    s.define d = .fault ↔ s.entity? d.name = none ∧ d.IsChecked ∧ ¬ d.IsRecord := by
  rw [← EntityDef.declare_eq_fault_iff, define]
  cases hknown : s.entity? d.name with
  | some e => exact ⟨fun h => (nomatch h), fun h => (nomatch h.1)⟩
  | none =>
    cases hdeclare : d.declare with
    | error stop =>
      cases stop with
      | error e => exact ⟨fun h => (nomatch h), fun h => (nomatch h.2)⟩
      | fault => exact ⟨fun _ => ⟨rfl, rfl⟩, fun _ => rfl⟩
    | ok e => exact ⟨fun h => (nomatch h), fun h => (nomatch h.2)⟩

theorem defineEntity_eq_fault_iff {s : Session} {args : Text} :
    s.defineEntity args = .fault ↔
      ∃ d, EntityDef.read args = .ok d ∧ s.define d = .fault := by
  rw [defineEntity]
  cases EntityDef.read args with
  | error e => exact ⟨fun h => (nomatch h), fun ⟨_, h, _⟩ => (nomatch h)⟩
  | ok d => exact ⟨fun h => ⟨d, rfl, h⟩, fun ⟨_, h, hfault⟩ => by cases h; exact hfault⟩

/-- Definitions one after the other fault at the first that faults after those before it went
through. -/
theorem stop_defineAll_eq_fault_iff {s : Session} {ds : List EntityDef} :
    (s.defineAll ds).stop = some .fault ↔ ∃ before d behind, ds = before ++ d :: behind ∧
      (s.defineAll before).stop = none ∧ (s.defineAll before).session.define d = .fault := by
  induction ds generalizing s with
  | nil => exact ⟨fun h => (nomatch h), fun ⟨before, d, behind, h, _⟩ => by simp at h⟩
  | cons d ds ih =>
    rw [defineAll]
    cases hdefine : s.define d with
    | error stop =>
      constructor
      · intro h
        obtain rfl : stop = .fault := by simpa using h
        exact ⟨[], d, ds, rfl, rfl, hdefine⟩
      · rintro ⟨before, d', behind, hds, hbefore, hfault⟩
        cases before with
        | nil =>
          cases hds
          rw [defineAll, Outcome.success, hdefine] at hfault
          exact congrArg some (Except.error.inj hfault)
        | cons d₀ before =>
          cases hds
          rw [defineAll, hdefine] at hbefore
          cases hbefore
    | ok result =>
      obtain ⟨s', output⟩ := result
      have hstep : ∀ before, (s.defineAll (d :: before)).stop = (s'.defineAll before).stop ∧
          (s.defineAll (d :: before)).session = (s'.defineAll before).session := by
        intro before
        simp only [defineAll, hdefine, and_self]
      rw [ih]
      constructor
      · rintro ⟨before, d', behind, rfl, hbefore, hfault⟩
        exact ⟨d :: before, d', behind, rfl, (hstep before).1.trans hbefore,
          by rwa [(hstep before).2]⟩
      · rintro ⟨before, d', behind, hds, hbefore, hfault⟩
        cases before with
        | nil =>
          cases hds
          rw [defineAll, Outcome.success, hdefine] at hfault
          cases hfault
        | cons d₀ before =>
          cases hds
          exact ⟨before, d', behind, rfl, (hstep before).1.symm.trans hbefore,
            by rwa [← (hstep before).2]⟩

/-- **Definitions without an outcome.** What is checked of a definition is that it has fields whose
exported names are pairwise different and not empty and whose types are known. A definition that is
checked, for a name that is free, faults exactly if an exported name is not the name of a field or
is that of the marker. This holds for the definition that a command describes and for the first
definition of a document that does not go through. -/
theorem definition_faults_iff (s : Session) :
    (∀ d : EntityDef, (∃ ms, d.members = .ok ms) ↔ d.IsChecked) ∧
    (∀ args, s.defineEntity args = .fault ↔ ∃ d, EntityDef.read args = .ok d ∧
      s.entity? d.name = none ∧ d.IsChecked ∧ ¬ d.IsRecord) ∧
    ∀ ds, (s.defineAll ds).stop = some .fault ↔ ∃ before d behind, ds = before ++ d :: behind ∧
      (s.defineAll before).stop = none ∧
      (s.defineAll before).session.entity? d.name = none ∧ d.IsChecked ∧ ¬ d.IsRecord := by
  refine ⟨fun _ => EntityDef.members_eq_ok_iff, fun args => ?_, fun ds => ?_⟩
  · simp only [defineEntity_eq_fault_iff, define_eq_fault_iff]
  · simp only [stop_defineAll_eq_fault_iff, define_eq_fault_iff]

/-- **A field whose name begins with a digit, and one with the name of the marker.** Both
definitions are checked, and defining them has no outcome. -/
theorem exists_definition_faults :
    (∃ d, EntityDef.read "a 1x:int" = .ok d ∧ (∃ ms, d.members = .ok ms) ∧
      (Session.new .sqlServer).define d = .fault) ∧
    (∃ d, EntityDef.read "a entity_marker:int" = .ok d ∧ (∃ ms, d.members = .ok ms) ∧
      (Session.new .sqlServer).define d = .fault) := by
  constructor
  · have hchecked : (⟨"a", [], [⟨"1x", "int", [], false, false, false⟩]⟩ : EntityDef).IsChecked :=
      ⟨by decide, by decide, by decide, by decide⟩
    refine ⟨_, by decide, EntityDef.members_eq_ok_iff.mpr hchecked,
      define_eq_fault_iff.mpr ⟨by decide, hchecked, fun h => ?_⟩⟩
    exact absurd (h _ List.mem_cons_self).1 (by decide +kernel)
  · have hchecked : (⟨"a", [], [⟨"entity_marker", "int", [], false, false, false⟩]⟩ :
        EntityDef).IsChecked :=
      ⟨by decide, by decide, by decide, by decide⟩
    refine ⟨_, by decide, EntityDef.members_eq_ok_iff.mpr hchecked,
      define_eq_fault_iff.mpr ⟨by decide, hchecked, fun h => ?_⟩⟩
    exact (h _ List.mem_cons_self).2 (by decide)

end Session

end Shell

end QueryTree
