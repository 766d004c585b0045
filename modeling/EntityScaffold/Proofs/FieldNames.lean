import EntityScaffold.Proofs.Histories

/-!
# A field is found under the name it was given

A name that is accepted and stands on one line is written as it is, and read as it is.

* `addFieldOf_finds` — in whichever class, a field is found once it has been added.
* `History.finds_field` — in a class made by edits, it is still found when the class has been
  written and read again.
-/

set_option autoImplicit false

namespace EntityScaffold

open Text Source Edit

section

variable {name : Text} {value : Value} {phpType : Option Text} {nullable : Bool}

/-- **An added field is found under its name**, in whichever class: the edit succeeds, and every
other name finds what it found before. -/
theorem addFieldOf_finds {i : Text} (hi : IsIndent i)
    (haccepted : (Call.addField name value phpType nullable).IsAccepted) (hfeed : '\n' ∉ name)
    (hphp : ∀ t ∈ given? phpType, PlainType t) (d : Desk) :
    ∃ p d', (addFieldOf i name value phpType nullable).run d = (.ok (), d') ∧ p.name = name ∧
      ∀ other, d'.file.findProperty? other =
        if other = name then some p else d.file.findProperty? other := by
  obtain ⟨hname, type, htype⟩ := haccepted
  obtain ⟨log, hrun⟩ : ∃ log, (Edit.addField i name type phpType nullable).run d = (.ok (),
        ⟨fieldAdded i name type ((given? phpType).getD type.phpType) nullable d.file, log⟩) :=
    run_addField hi hname (name_of_notMem hfeed hname).plain (isFieldType_given hphp type) d
  rw [addFieldOf_eq hname htype, hrun]
  exact ⟨fieldProperty name type ((given? phpType).getD type.phpType) nullable, _, rfl, rfl,
    findProperty?_fieldAdded i name type _ nullable⟩

/-- **It is still found when the class has been written and read again**, where the class is one
that edits have led to from a new entity. -/
theorem History.finds_field {table : Definitions} {d : Desk} (h : History table d.file) (c : Config)
    (haccepted : (Call.addField name value phpType nullable).IsAccepted) (hfeed : '\n' ∉ name)
    (hphp : ∀ t ∈ given? phpType, PlainType t) (path : Option Text) :
    ∃ p d' g, (addFieldOf c.indent name value phpType nullable).run d = (.ok (), d') ∧
      p.name = name ∧ d'.file.findProperty? name = some p ∧
      ClassFile.parse d'.file.serialize path = .ok g ∧ g.findProperty? name = some p := by
  obtain ⟨p, d', hrun, hname, hfind⟩ :=
    addFieldOf_finds (isIndent_config c) haccepted hfeed hphp d
  have hplain : (Call.addField name value phpType nullable).HasPlainNames :=
    ⟨(name_of_notMem hfeed haccepted.1).plain, hphp⟩
  have hcall : ((Call.addField name value phpType nullable).edit c.indent).run d = (.ok (), d') :=
    hrun
  have hafter := History.call h hplain (congrArg Prod.fst hcall)
  rw [hcall] at hafter
  have hfound : d'.file.findProperty? name = some p := by
    rw [hfind, if_pos rfl]
  refine ⟨p, d', _, hrun, hname, hfound, hafter.coherent.regular.settled.parse_serialize path, ?_⟩
  exact ((alike_normalized d'.file path).findProperty?_eq name).trans hfound

end

end EntityScaffold
