import ModelMint.Proofs.Blueprint.Describing
import ModelMint.Proofs.Emit.Types
import ModelMint.Proofs.Source.Quotations

/-!
# Descriptions in modules

The description of a class stands at the start of its documentation, and that of a
property above its declaration: the module is that of the plan without descriptions, with
lines put in at these places.  In the documentation the lines do not end the text they
stand in, and come out of it again as they were.
-/

namespace ModelMint.Emit

open ModelMint.Blueprint

/-! ## Modules with descriptions -/

/-- The module with lines of description put in, those of the fields one list after the other. -/
def ClassModule.described (lines : List String) (comments : List (List String))
    (module : ClassModule) : ClassModule :=
  { module with
    documentation := lines.map escapeLine ++ (if lines.isEmpty then [] else [""]) ++
      module.documentation
    fields := List.zipWith
      (fun comment field => { field with comment := comment ++ field.comment }) comments
        module.fields }

section Plans

variable {names : BaseNames} {heading : List String}

theorem setterCode_undescribed (member : Blueprint.Member) :
    setterCode names member.undescribed = setterCode names member := by
  have hstatement : statementOf names member.undescribed.field = statementOf names member.field := by
    funext rule
    cases rule <;> rfl
  unfold setterCode
  rw [hstatement]
  rfl

theorem documentationOf_undescribed (plan : Plan) : documentationOf plan =
    plan.description.map escapeLine ++ (if plan.description.isEmpty then [] else [""]) ++
      documentationOf plan.undescribed := by
  have hfields : plan.undescribed.fields = plan.fields.map Field.undescribed :=
    plan.fields_seen fun _ => rfl
  have haccessors : plan.undescribed.fields.flatMap (accessorLines plan.undescribed.name) =
      plan.fields.flatMap (accessorLines plan.name) := by
    rw [hfields, List.flatMap_map]
    rfl
  simp only [documentationOf, haccessors, List.isEmpty_map]
  simp [Plan.undescribed, Plan.seen]

theorem ofPlan_described (plan : Plan) :
    ClassModule.ofPlan names heading plan =
      (ClassModule.ofPlan names heading plan.undescribed).map
        (ClassModule.described plan.description (plan.fields.map Field.description)) := by
  have hfields : plan.undescribed.fields = plan.fields.map Field.undescribed :=
    plan.fields_seen fun _ => rfl
  have hsetters : plan.undescribed.setters = plan.setters.map Member.undescribed :=
    plan.setters_seen fun _ => rfl
  have hreferences : plan.undescribed.references = plan.references := plan.references_seen fun _ => rfl
  have hconstants : plan.undescribed.constants = plan.constants := plan.constants_seen fun _ => rfl
  have hcodes : List.zipWith (fun comment field => { field with comment := comment ++ field.comment })
      (plan.fields.map Field.description) (plan.undescribed.fields.map (fieldCode names)) =
        plan.fields.map (fieldCode names) := by
    rw [hfields, List.map_map, List.zipWith_map, List.zipWith_self]
    rfl
  unfold ClassModule.ofPlan
  rw [map_bind, hsetters, List.mapM_map]
  simp only [Function.comp_def, setterCode_undescribed]
  congr 1
  funext setters
  simp only [Except.map, ClassModule.described, hcodes, hreferences, hconstants,
    ← documentationOf_undescribed]
  rw [hfields, List.any_map]
  rfl

end Plans

/-! ## Lines within the documentation -/

/-- Lines as they stand in the documentation of a class. -/
def indentedLines (lines : List String) : List Char :=
  lines.flatMap fun line => (if line.isEmpty then "" else indent line).toList ++ ['\n']

/-- A stretch of a body that the value begins with when it is decoded. -/
def Yields (text value : List Char) : Prop :=
  ∀ rest tail, Source.decodeFrom false 0 rest = some tail →
    Source.decodeFrom false 0 (text ++ rest) = some (value ++ tail)

/-- The documentation of a module with descriptions begins with them. -/
theorem toList_documentationLines (module : ClassModule) (lines : List String)
    (comments : List (List String)) : ∃ rest,
      (unlines (module.described lines comments).documentationLines).toList =
        "    \"\"\"\n".toList ++ indentedLines (lines.map escapeLine) ++ rest := by
  refine ⟨(unlines (((if lines.isEmpty then [] else [""]) ++ module.documentation).map
    (fun line => if line.isEmpty then "" else indent line) ++ ["    \"\"\""])).toList, ?_⟩
  have hlines : indentedLines (lines.map escapeLine) = (unlines ((lines.map escapeLine).map
      fun line => if line.isEmpty then "" else indent line)).toList := by
    rw [toList_unlines, List.flatMap_map (fun line : String => if line.isEmpty then "" else indent line)]
    rfl
  have hopening : "    \"\"\"\n".toList = (unlines ["    \"\"\""]).toList := by
    rw [toList_unlines]
    decide
  rw [hlines, hopening, ← String.toList_append, ← unlines_append, ← String.toList_append,
    ← unlines_append]
  simp only [ClassModule.documentationLines, ClassModule.described, List.map_append,
    List.append_assoc]

section Lines

variable {text more value tail : List Char}

theorem yields_nil : Yields [] [] := fun _ _ h => h

theorem Yields.append (h : Yields text value) (hmore : Yields more tail) :
    Yields (text ++ more) (value ++ tail) := by
  intro rest last hrest
  rw [List.append_assoc, List.append_assoc]
  exact h _ _ (hmore rest last hrest)

theorem yields_plain {c : Char} (h : c ≠ '\\') : Yields [c] [c] := by
  intro rest last hrest
  simp [Source.decodeFrom, h, hrest]

theorem yields_escaped {c : Char} (h : c = '\\' ∨ c = '"') : Yields ['\\', c] [c] := by
  rintro rest last hrest
  rcases h with rfl | rfl <;>
    simp [Source.decodeFrom, Source.escape?, Source.letterEscape?, hrest]

theorem yields_escapeChars (line : List Char) : Yields (Source.escapeChars line) line := by
  fun_induction Source.escapeChars line with
  | case1 => exact yields_nil
  | case2 rest ih =>
      have hquote : Yields ['\\', '"'] ['"'] := yields_escaped (.inr rfl)
      exact hquote.append (hquote.append (hquote.append ih))
  | case3 rest hquotes ih => exact (yields_escaped (.inl rfl)).append ih
  | case4 c rest hquotes hescape ih => exact (yields_plain hescape).append ih

theorem yields_escapeLine (line : String) : Yields (escapeLine line).toList line.toList := by
  rw [escapeLine, String.toList_ofList, Source.escapeQuotes_escapeBackslashes]
  exact yields_escapeChars line.toList

theorem escapeLine_isEmpty (line : String) : (escapeLine line).isEmpty = line.isEmpty := by
  rw [escapeLine, Source.escapeQuotes_escapeBackslashes]
  have hchars : Source.escapeChars line.toList = [] ↔ line.toList = [] := by
    rw [Source.escapeChars.eq_def]
    split
    · simp_all
    · simp_all
    · split <;> simp_all
  rw [Bool.eq_iff_iff, String.isEmpty_iff, String.isEmpty_iff, ← String.toList_eq_nil_iff,
    ← String.toList_eq_nil_iff, String.toList_ofList, hchars]

/-- Escaped lines are decoded to the lines. -/
theorem yields_indentedLines (lines : List String) :
    Yields (indentedLines (lines.map escapeLine)) (indentedLines lines) := by
  have hblank : Yields [' '] [' '] := yields_plain (by decide)
  have hbreak : Yields ['\n'] ['\n'] := yields_plain (by decide)
  induction lines with
  | nil => exact yields_nil
  | cons line rest ih =>
      have hline : Yields (if (escapeLine line).isEmpty then "" else indent (escapeLine line)).toList
          (if line.isEmpty then "" else indent line).toList := by
        rw [escapeLine_isEmpty]
        split
        · exact yields_nil
        · rw [indent, indent, String.toList_append, String.toList_append]
          exact (hblank.append (hblank.append (hblank.append hblank))).append (yields_escapeLine line)
      exact (hline.append hbreak).append ih

/-- Escaped lines do not end the text in triple quotes that they stand in. -/
theorem scanBlock_indentedLines {lines : List String} (h : ∀ line ∈ lines, '\r' ∉ line.toList)
    (rest : List Char) :
    Source.scanBlock '"' (indentedLines (lines.map escapeLine) ++ rest) =
      (Source.scanBlock '"' rest).map fun (body, rest) =>
        (indentedLines (lines.map escapeLine) ++ body, rest) := by
  have hlines : ∀ line ∈ (lines.map escapeLine).map fun line =>
      (if line.isEmpty then "" else indent line).toList, Source.HoldsLine line := by
    rw [List.map_map, List.forall_mem_map]
    exact fun line hline => (Source.holdsLine_escapeLine (h line hline)).indent
  have hscan := Source.scanBlock_lines hlines rest
  rw [List.flatMap_map] at hscan
  exact hscan

end Lines

end ModelMint.Emit
