import PdfCanvas.Error

/-!
# Colour spaces

A colour space is written as an object (`toObject`) and read back from one (`ofObject`). The reader also
takes abbreviated family names, calibrated families as the device families they refine, and numbers out
of range, which it moves to the nearest bound.
-/

namespace PdfCanvas

inductive ColorSpace where
  | gray
  | rgb
  | cmyk
  /-- A table of colours of the base space; `limit` is the greatest index. -/
  | indexed (base : ColorSpace) (limit : UInt8) (table : Bytes)
  | icc (components : UInt8) (alternate : Option ColorSpace) (profile : Option Ref)
  | separation (colorant : String) (alternate : ColorSpace) (tint : Object)
  | deviceN (colorants : List String) (alternate : ColorSpace) (tint : Object)
  | pattern (underlying : Option ColorSpace)

namespace ColorSpace

instance : Inhabited ColorSpace := ⟨gray⟩

/-- The name of the family. -/
def name : ColorSpace → String
  | .gray => "DeviceGray"
  | .rgb => "DeviceRGB"
  | .cmyk => "DeviceCMYK"
  | .indexed .. => "Indexed"
  | .icc .. => "ICCBased"
  | .separation .. => "Separation"
  | .deviceN .. => "DeviceN"
  | .pattern _ => "Pattern"

/-- The number of components of a colour. -/
def components : ColorSpace → Nat
  | .gray => 1
  | .rgb => 3
  | .cmyk => 4
  | .indexed .. => 1
  | .icc components _ _ => components.toNat
  | .separation .. => 1
  | .deviceN colorants _ _ => colorants.length
  | .pattern none => 0
  | .pattern (some underlying) => underlying.components
  termination_by structural space => space

/-- Whether content selects the space by its family name, without a resource. -/
def hasFixedName : ColorSpace → Bool
  | .gray | .rgb => true
  | _ => false

/-- The range that samples are mapped to by default: indices are kept as they are. -/
def defaultRange (space : ColorSpace) (bits : Nat) : Single × Single :=
  match space with
  | .indexed .. => (Floating.zero, Floating.ofNat (1 <<< min bits 16 - 1))
  | _ => (Floating.zero, Floating.one)

mutual

/-- Equality of colour spaces, with that of objects for tint transforms. -/
def same : ColorSpace → ColorSpace → Bool
  | .gray, .gray => true
  | .rgb, .rgb => true
  | .cmyk, .cmyk => true
  | .indexed a n s, .indexed b m t => same a b && n == m && s == t
  | .icc n a p, .icc m b q => n == m && sameOption a b && p == q
  | .separation x a s, .separation y b t => x == y && same a b && s.same t
  | .deviceN xs a s, .deviceN ys b t => xs == ys && same a b && s.same t
  | .pattern a, .pattern b => sameOption a b
  | _, _ => false
  termination_by structural a => a

def sameOption : Option ColorSpace → Option ColorSpace → Bool
  | none, none => true
  | some a, some b => same a b
  | _, _ => false
  termination_by structural a => a

end

mutual

/-- The object that names or describes a colour space. -/
def toObject : ColorSpace → Object
  | .gray => .name "DeviceGray"
  | .rgb => .name "DeviceRGB"
  | .cmyk => .name "DeviceCMYK"
  | .indexed base limit table =>
    .array [.name "Indexed", base.toObject, .integer limit.toNat, .string table]
  | .icc _ _ (some profile) => .array [.name "ICCBased", .reference profile]
  | .icc components alternate none =>
    .array [.name "ICCBased",
      .dictionary (("N", .integer components.toNat) :: alternateEntry alternate)]
  | .separation colorant alternate tint =>
    .array [.name "Separation", .name colorant, alternate.toObject, tint]
  | .deviceN colorants alternate tint =>
    .array [.name "DeviceN", .array (colorants.map .name), alternate.toObject, tint]
  | .pattern none => .name "Pattern"
  | .pattern (some underlying) => .array [.name "Pattern", underlying.toObject]
  termination_by structural space => space

/-- The dictionary entry of the space that stands in for a profile. -/
def alternateEntry : Option ColorSpace → List (String × Object)
  | none => []
  | some alternate => [("Alternate", alternate.toObject)]
  termination_by structural alternate => alternate

end

/-- Reads a name. -/
def ofName (name : String) : Except Error ColorSpace :=
  if name ∈ ["DeviceGray", "G", "CalGray"] then .ok .gray
  else if name ∈ ["DeviceRGB", "RGB", "CalRGB"] then .ok .rgb
  else if name ∈ ["DeviceCMYK", "CMYK"] then .ok .cmyk
  else if name = "Pattern" then .ok (.pattern none)
  else .error (.format (.unknownSpace name))

/-- The families of colour spaces that have parameters. -/
inductive Family where
  | gray
  | rgb
  | indexed
  | icc
  | separation
  | deviceN
  | pattern

/-- The family that the first item of an array names. Device families are written without an array;
they are taken in one only if they stand there alone. -/
def Family.ofName? (name : String) : Option Family :=
  if name = "CalGray" then some .gray
  else if name = "CalRGB" then some .rgb
  else if name = "Indexed" ∨ name = "I" then some .indexed
  else if name = "ICCBased" then some .icc
  else if name = "Separation" then some .separation
  else if name = "DeviceN" then some .deviceN
  else if name = "Pattern" then some .pattern
  else none

/-- Names that mean the same alone in an array as without it. -/
def soleNames : List String :=
  ["DeviceGray", "DeviceRGB", "DeviceCMYK", "G", "RGB", "CMYK", "Pattern"]

/-- The bytes of a colour table. -/
def tableBytes : Object → Except Error Bytes
  | .string bytes => .ok bytes
  | .stream _ data => .ok data
  | other => .error (.format (.paletteType other.typeName))

/-- An integer moved into the range from `low` to `high`. -/
def clampByte (low high : UInt8) (value : Int) : UInt8 :=
  (max low.toNat (min high.toNat value.toNat)).toUInt8

/-- The number of components that the dictionary of a profile gives, from one to four. -/
def profileCount (entries : Dictionary) : Except Error UInt8 :=
  match (entries.get? "N").bind Object.integer? with
  | none => .error (.format .profileWithoutCount)
  | some components => .ok (clampByte 1 4 components)

mutual

/-- Reads an object. -/
def ofObject : Object → Except Error ColorSpace
  | .name name => ofName name
  | .array items => ofItems items
  | .reference target => .error (.format (.unresolvedSpace target))
  | other => .error (.format (.spaceType other.typeName))
  termination_by structural object => object

/-- Reads the items of an array: a family and its parameters. -/
def ofItems : List Object → Except Error ColorSpace
  | .name family :: parameters =>
    if parameters.isEmpty && soleNames.contains family then ofName family
    else
      match Family.ofName? family with
      | none => .error (.format (.unknownSpace family))
      | some .gray => .ok .gray
      | some .rgb => .ok .rgb
      | some .indexed => ofTable family parameters
      | some .icc =>
        match parameters with
        | [] => .error (.format (.missingItem family 1))
        | profile :: _ => ofProfile profile
      | some .separation => ofColorant family parameters
      | some .deviceN => ofColorants family parameters
      | some .pattern =>
        match parameters with
        | [] => .error (.format (.missingItem family 1))
        | underlying :: _ => return .pattern (some (← ofObject underlying))
  | _ => .error (.format .noFamily)
  termination_by structural items => items

/-- Reads base, greatest index and table. -/
def ofTable (family : String) : List Object → Except Error ColorSpace
  | [] => .error (.format (.missingItem family 1))
  | base :: rest => do
    let base ← ofObject base
    match rest with
    | [] => .error (.format (.missingItem family 2))
    | limit :: rest =>
      match limit.integer?, rest with
      | none, _ => .error (.format .paletteLimitType)
      | some _, [] => .error (.format (.missingItem family 3))
      | some limit, table :: _ => return .indexed base (clampByte 0 255 limit) (← tableBytes table)
  termination_by structural items => items

/-- Reads a profile: the dictionary of its stream tells the components and the alternate. -/
def ofProfile : Object → Except Error ColorSpace
  | .stream entries _ => do return .icc (← profileCount entries) (← ofAlternate entries) none
  | .dictionary entries => do return .icc (← profileCount entries) (← ofAlternate entries) none
  | .reference target => .error (.format (.unresolvedProfile target))
  | other => .error (.format (.profileType other.typeName))
  termination_by structural object => object

/-- Reads the entry that gives an alternate space, if there is one. -/
def ofAlternate : List (String × Object) → Except Error (Option ColorSpace)
  | [] => .ok none
  | entry :: rest => do
    match ← ofAlternateEntry entry with
    | some alternate => return some alternate
    | none => ofAlternate rest
  termination_by structural entries => entries

def ofAlternateEntry : String × Object → Except Error (Option ColorSpace)
  | (key, value) => if key = "Alternate" then some <$> ofObject value else .ok none
  termination_by structural entry => entry

/-- Reads a colorant, its alternate space and its tint transform. -/
def ofColorant (family : String) : List Object → Except Error ColorSpace
  | [] => .error (.format (.missingItem family 1))
  | colorant :: rest =>
    match colorant.name?, rest with
    | none, _ => .error (.format .colorantType)
    | some _, [] => .error (.format (.missingItem family 2))
    | some colorant, alternate :: rest =>
      return .separation colorant (← ofObject alternate) (rest.head?.getD .null)
  termination_by structural items => items

/-- Reads colorants, their alternate space and their tint transform; items that are not names are
left out of the colorants. -/
def ofColorants (family : String) : List Object → Except Error ColorSpace
  | [] => .error (.format (.missingItem family 1))
  | colorants :: rest =>
    match colorants.array?, rest with
    | none, _ => .error (.format .colorantsType)
    | some items, rest =>
      if (items.filterMap Object.name?).isEmpty then .error (.format .noColorants)
      else
        match rest with
        | [] => .error (.format (.missingItem family 2))
        | alternate :: rest =>
          return .deviceN (items.filterMap Object.name?) (← ofObject alternate)
            (rest.head?.getD .null)
  termination_by structural items => items

end

end ColorSpace

/-- A colour: components in a colour space. -/
structure Color where
  components : List Single
  space : ColorSpace

end PdfCanvas
