-- SUMMARY: Limits and policies of an evaluation, from the environment, settings and metadata.
import RandomTables.Schema.Reading

/-!
# Configuration

A setting that is given wins over the environment, and the environment over the default. The
metadata of a document replace the limits for what is evaluated in that document.
-/
namespace RandomTables

structure Config where
  maxRecursionDepth : Nat := 50
  maxExplodingDice : Nat := 100
  maxInheritanceDepth : Nat := 5
  uniqueOverflow : Overflow := .stop
  logLevel : String := "WARNING"

namespace Config

/-- What the names of the environment's variables begin with, in any letter case. -/
def environmentMark : String := "rolltable_"

/-- The value under a name in any letter case; of several spellings the last one counts. -/
def valueInAnyCase {α : Type} (values : Assoc α) (name : String) : Option α :=
  (values.reverse.find? fun (key, _) => key.map Char.toLower = name).map (·.2)

/-- The value of a variable of the environment. -/
def environmentValue (environment : Assoc String) (name : String) : Option String :=
  valueInAnyCase environment (environmentMark ++ name)

/-- The value of a setting. -/
def settingValue (settings : Json) (name : String) : Option Json :=
  match settings with
  | .obj fields => valueInAnyCase fields name
  | _ => none

/-- The names of the settings. -/
def names : List String :=
  ["max_recursion_depth", "max_exploding_dice", "max_inheritance_depth",
    "unique_overflow_behavior", "log_level"]

/-- The settings as one object. -/
def gather (environment : Assoc String) (settings : Json) : Json :=
  .obj (names.filterMap fun name =>
    ((settingValue settings name).or ((environmentValue environment name).map .str)).map
      (Prod.mk name))

open Schema in
def read (environment : Assoc String) (settings : Json) : Checked Config :=
  let j := gather environment settings
  Config.mk <$> fieldD j "max_recursion_depth" 50 (integerFrom 1)
    <*> fieldD j "max_exploding_dice" 100 (integerFrom 0)
    <*> fieldD j "max_inheritance_depth" 5 (integerFrom 1)
    <*> fieldD j "unique_overflow_behavior" .stop (choice [.stop, .cycle, .error] Overflow.name)
    <*> fieldD j "log_level" "WARNING" Schema.text

/-- The configuration with the limits that metadata set. -/
def within (c : Config) (m : Metadata) : Config :=
  { c with
    maxRecursionDepth := m.maxRecursionDepth.getD c.maxRecursionDepth
    maxExplodingDice := m.maxExplodingDice.getD c.maxExplodingDice
    maxInheritanceDepth := m.maxInheritanceDepth.getD c.maxInheritanceDepth
    uniqueOverflow := m.uniqueOverflow.getD c.uniqueOverflow }

end Config

end RandomTables
