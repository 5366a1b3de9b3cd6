import TemplateManifest.Text.Quoted

/-!
Structured text: quoted strings, lists and records, written with an indentation of two blanks
for each level.
-/

namespace TemplateManifest

/-- A piece of structured text. -/
inductive Item where
  | string (text : String)
  | list (items : List Item)
  | record (fields : List (String × Item))
deriving Inhabited

namespace Item

/-- The blanks before a line. -/
def indent (level : Nat) : String := "".pushn ' ' (2 * level)

/-- Lines between two brackets; without lines the brackets stand together. -/
def bracketed (level : Nat) (opening closing : String) : List String → String
  | [] => opening ++ closing
  | line :: lines =>
    opening ++ "\n" ++ indent (level + 1) ++
      String.intercalate (",\n" ++ indent (level + 1)) (line :: lines) ++
      "\n" ++ indent level ++ closing

mutual

/-- The text of an item whose first line stands at a level. -/
def pretty (level : Nat) : Item → String
  | string text => Text.quote text
  | list items => bracketed level "[" "]" (prettyItems (level + 1) items)
  | record fields => bracketed level "\x7b" "\x7d" (prettyFields (level + 1) fields)

/-- The texts of some items. -/
def prettyItems (level : Nat) : List Item → List String
  | [] => []
  | item :: items => item.pretty level :: prettyItems level items

/-- The texts of some fields. -/
def prettyFields (level : Nat) : List (String × Item) → List String
  | [] => []
  | (name, item) :: fields =>
    (Text.quote name ++ ": " ++ item.pretty level) :: prettyFields level fields

end

end Item

end TemplateManifest
