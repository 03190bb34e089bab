import EffectGraph.Json.Decode

/-!
# `PostProcess.Settings` — color grading settings shared by every camera
-/

namespace EffectGraph

/-- The pixel format of a grading table. -/
inductive LutFormat where
  | argbHalf
  | argbFloat
  | argb2101010
deriving DecidableEq, Repr

namespace LutFormat

/-- The name of a format in documents. -/
def name : LutFormat → String
  | .argbHalf => "ARGBHalf"
  | .argbFloat => "ARGBFloat"
  | .argb2101010 => "ARGB2101010"

/-- The formats by their names in documents. -/
def names : List (String × LutFormat) :=
  [("ARGBHalf", .argbHalf), ("ARGBFloat", .argbFloat), ("ARGB2101010", .argb2101010)]

/-- The document form of a format. -/
def toJson (format : LutFormat) : Json := .string format.name

/-- Reads a format. -/
def ofJson : Json → Decoded LutFormat := Json.toName names

end LutFormat

/-- The settings. -/
structure PostProcessSettings where
  /-- The number of entries along a side of the grading table. -/
  lutSize : UInt32 := 32
  /-- The pixel format of the grading table. -/
  lutFormat : LutFormat := .argbHalf
deriving DecidableEq

namespace PostProcessSettings

/-- The member of a document that holds the size. -/
def lutSizeName : String := "m_LutSize"

/-- The member of a document that holds the format. -/
def lutFormatName : String := "lutFormat"

/-- The document form of the settings. -/
def toJson (settings : PostProcessSettings) : Json :=
  .object [(lutFormatName, settings.lutFormat.toJson), (lutSizeName, .nat settings.lutSize.toNat)]

/-- The fields of the settings in documents, in order. -/
def fields : List String := [lutSizeName, lutFormatName]

/-- Reads settings. What is not given has its default. -/
def ofJson : Json → Decoded PostProcessSettings :=
  Json.toRecord "GlobalPostProcessSettings" fields
    (fun (settings : PostProcessSettings) name value =>
      if name = lutSizeName then return { settings with lutSize := ← value.toUInt32 }
      else if name = lutFormatName then
        return { settings with lutFormat := ← LutFormat.ofJson value }
      else return settings)
    {}

end PostProcessSettings
end EffectGraph
