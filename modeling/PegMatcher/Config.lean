import PegMatcher.ValueVector.Kind
import PegMatcher.Text
/-
The settings of a run: the representation of vectors, and how deep rules may nest.
-/
namespace PegMatcher

structure Config where
  kind : Kind
  /-- The deepest nesting allowed, none for no limit. -/
  maxDepth : Option Nat
  deriving DecidableEq

/-- A setting as it stands in a configuration file. -/
inductive Setting
  | null
  | natural (n : Nat)
  | text (s : String)
  /-- A record with one field. -/
  | single (field : String) (content : Setting)
  | other

/-- The alternative that a setting chooses by its name: the name as text, or as the one
field of a record that holds nothing. -/
def Setting.choice? : Setting → Option String
  | .text s => some s
  | .single field .null => some field
  | _ => none

namespace Config

def standard : Config := ⟨.array, some 512⟩

def withKind (config : Config) (kind : Kind) : Config := { config with kind }

def withMaxDepth (config : Config) (limit : Nat) : Config := { config with maxDepth := some limit }

def unlimited (config : Config) : Config := { config with maxDepth := none }

/-- One named setting; unknown names are passed over, and a known name with a setting
of the wrong type refuses the configuration. -/
def set? (config : Config) : String × Setting → Option Config
  | ("vector_kind", setting) =>
    (setting.choice?.bind Kind.ofName?).map config.withKind
  | ("max_depth", .natural n) => some (config.withMaxDepth n)
  | ("max_depth", .null) => some config.unlimited
  | ("max_depth", _) => none
  | _ => some config

/-- A configuration from its settings; what is absent keeps its standard value. -/
def ofSettings? (settings : List (String × Setting)) : Option Config :=
  settings.foldlM set? standard

/-- The settings that read back as the configuration. -/
def settings (config : Config) : List (String × Setting) :=
  [("vector_kind", .text config.kind.name),
    ("max_depth", match config.maxDepth with | some n => .natural n | none => .null)]

theorem ofSettings?_settings (config : Config) : ofSettings? config.settings = some config := by
  obtain ⟨kind, maxDepth⟩ := config
  cases kind <;> cases maxDepth <;> rfl

def form (config : Config) : String :=
  Text.recordForm "ParserConfig"
    [("vector_kind", match config.kind with | .array => "Array" | .cons => "Cons"),
      ("max_depth", Text.optionForm (config.maxDepth.map Decimal.ofNat))]

end Config
end PegMatcher
