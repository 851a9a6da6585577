import Mathlib.Data.List.DropRight
import Crotalus.Framework.Lines
import Crotalus.Spec.Config
import Crotalus.Spec.Strings

namespace Crotalus

/-! The types of files, by the `mime.types` file and the `AddType` directives. -/

/-- A step that adds entries behind those of the table, and may set the default type. -/
structure Adds (s : Settings) (ps : List (Text × Text)) (d : Option Text) (s' : Settings) :
    Prop where
  default : s'.string .defaultType=d.or (s.string .defaultType)
  table : ∀ x,hashFind s'.mimeHashtable x=hashFind (s.mimeHashtable++ps) x

theorem Adds.refl {s s' : Settings} (hs : s'.string .defaultType=s.string .defaultType)
    (ht : s'.mimeHashtable=s.mimeHashtable) : Adds s [] none s' :=
  ⟨hs,fun x => by rw [ht,List.append_nil]⟩

theorem Adds.trans {s t u : Settings} {ps qs : List (Text × Text)} {d d' : Option Text}
    (h : Adds s ps d t) (h' : Adds t qs d' u) : Adds s (ps++qs) (d'.or d) u where
  default := by rw [h'.default,h.default,Option.or_assoc]
  table x := by
    rw [h'.table,hashFind_append,h.table,hashFind_append,hashFind_append,hashFind_append,
      Option.or_assoc]

theorem setFlagUnlessOff_adds (v : FlagVar) (token : String) (s : Settings) :
    Adds s [] none (setFlagUnlessOff v token s) := by
  unfold setFlagUnlessOff
  split_ifs <;> exact .refl rfl rfl

end Crotalus
