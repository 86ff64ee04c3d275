import Oxidize.Emit.Name

/-!
# Types in the emitted source

Text that views another buffer needs a lifetime everywhere except in local declarations.
-/

namespace Oxidize

/-- Where a type is written. -/
inductive TypeSite where
  | field
  | ret
  | loc
deriving DecidableEq, Repr

/-- The text of a primitive type. -/
def Prim.text (site : TypeSite) : Prim → String
  | .i8 => "i8"
  | .i16 => "i16"
  | .i32 => "i32"
  | .i64 => "i64"
  | .u8 => "u8"
  | .u16 => "u16"
  | .u32 => "u32"
  | .u64 => "u64"
  | .usize => "usize"
  | .f32 => "f32"
  | .f64 => "f64"
  | .bool => "bool"
  | .void => "()"
  | .ownedText => "String"
  | .viewText => if site = .loc then "&str" else "&'static str"

/-- Texts in parentheses; a single one keeps a comma, so that it stays a tuple. -/
def tupleText : List String → String
  | [one] => "(" ++ one ++ ",)"
  | parts => "(" ++ String.intercalate ", " parts ++ ")"

mutual

/-- The text of a type. The parameters of a function type are local declarations. -/
def Ty.text (site : TypeSite) : Ty → String
  | .prim p => p.text site
  | .seq elem => "Vec<" ++ elem.text site ++ ">"
  | .aggregate name | .enum name => Name.type name
  | .tuple elems => tupleText (Ty.texts site elems)
  | .optional inner => "Option<" ++ inner.text site ++ ">"
  | .ref inner mutable => "&" ++ (if mutable then "mut " else "") ++ inner.text site
  | .fn params ret =>
    "fn(" ++ String.intercalate ", " (Ty.texts .loc params) ++ ")" ++
      (if ret.isVoid then "" else " -> " ++ ret.text .ret)

/-- The texts of types. -/
def Ty.texts (site : TypeSite) : List Ty → List String
  | [] => []
  | t :: ts => t.text site :: Ty.texts site ts

end

end Oxidize
