import TemplateManifest.Compile.Source
import TemplateManifest.Proofs.Asset.Origin
import TemplateManifest.Proofs.Compile.PathCode
import TemplateManifest.Proofs.Script.Marked
import TemplateManifest.Reference

/-!
What replacing assets leaves alone. The code that a template owns in its module is what was
emitted for a literal or a sum that is the path of one of its assets. Main statement: all other
text stays byte for byte exactly when no entry matches any of it at its turn.
-/

namespace TemplateManifest

open Script

/-- The node spells the path of one of the entries. -/
def spellsEntry (entries : List AssetEntry) (node : Node) : Bool :=
  entries.any fun entry => node.assetPath? = some entry.reference

/-- The text of a module, in which the code of the entries' own paths is watched. -/
def Script.Module.traced (module : Module) (entries : List AssetEntry) : TracedText :=
  (module.marked (spellsEntry entries)).map fun (c, own) => (c, ⟨some own, none⟩)

theorem chars_traced (module : Module) (entries : List AssetEntry) :
    (module.traced entries).chars = module.text.toList := by
  rw [← module.map_fst_marked (spellsEntry entries), TracedText.chars, Module.traced, List.map_map]
  rfl

theorem put_traced {module : Module} {entries : List AssetEntry} {c : Char × Origin}
    (h : c ∈ module.traced entries) : c.2.put = none := by
  obtain ⟨⟨d, own⟩, _, rfl⟩ := List.mem_map.mp h
  rfl

/-- Replacing assets changes only the code that was emitted for a literal or a sum that is the
    path of an entry exactly when each entry, at its turn, matches nothing but such code and the
    lookups that have taken its place. The traced text is the rewritten one, so all other
    characters are then left as they were, in the same order and with nothing between them. -/
theorem except_own_code_replaceAssets_iff (module : Module) (entries : List AssetEntry) :
    let compiled := module.traced entries
    let rewritten := traceAssets entries compiled
    compiled.chars = module.text.toList ∧
      rewritten.chars = (replaceAssets entries module.text).toList ∧
      (rewritten.except true = compiled.except true ↔
        ∀ earlier entry later, entries = earlier ++ entry :: later →
          ∀ matched replacement : TracedText,
            .replaced matched replacement ∈ entry.stretches (traceAssets earlier compiled) →
            matched ≠ [] ∧ ∀ c ∈ matched, c.2.watched = some true) := by
  intro compiled rewritten
  refine ⟨chars_traced module entries, ?_, ?_⟩
  · rw [chars_traceAssets, chars_traced, String.ofList_toList]
  · rw [except_traceAssets_eq_iff fun c hc => put_traced hc, matchOnly_iff]
    simp only [AssetEntry.MatchesOnly, TracedText.part?_eq_some_iff]
    exact Iff.rfl

/-- A quoted name that the compiler wrote itself is taken for the path of an asset: in the lookup
    of the variable `name` the name is replaced. -/
theorem replaceAssets_changes_quoted_name :
    let source := "\x7b\x7b static('name') \x7d\x7d\x7b\x7b name \x7d\x7d"
    ∃ template module entries, Template.ofSource {} "t.njk" source = .ok template ∧
      template.compile {} "template" = .ok module ∧
      template.assetPaths = .ok (entries.map AssetEntry.reference) ∧
      (traceAssets entries (module.traced entries)).except true ≠
        (module.traced entries).except true := by
  intro source
  let entries : List AssetEntry := [⟨⟨"/a/name"⟩, "0", .static "name"⟩]
  have hfound : (Template.ofSource {} "t.njk" source).toOption.any fun template =>
      (template.compile {} "template").toOption.any fun module =>
        template.assetPaths.toOption = some (entries.map AssetEntry.reference) ∧
        (traceAssets entries (module.traced entries)).except true ≠
          (module.traced entries).except true := by
    decide +kernel
  obtain ⟨template, htemplate, hfound⟩ := exists_eq_ok_of_any hfound
  obtain ⟨module, hmodule, hfound⟩ := exists_eq_ok_of_any hfound
  obtain ⟨hpaths, hchanged⟩ := of_decide_eq_true hfound
  have hpaths : template.assetPaths = .ok (entries.map AssetEntry.reference) := by
    cases hassets : template.assetPaths with
    | error failure =>
      rw [hassets] at hpaths
      cases hpaths
    | ok paths =>
      rw [hassets] at hpaths
      rw [Option.some.inj hpaths]
  exact ⟨template, module, entries, htemplate, hmodule, hpaths, hchanged⟩

end TemplateManifest
