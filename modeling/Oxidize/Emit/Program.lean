import Oxidize.Emit.Stmt

/-!
# Programs in the emitted source

`Program.emit` writes the aggregates, enums, aliases, method blocks and functions of a program, in
that order, below an optional header of comment lines. It fails on the first aggregate literal
without a target; the notes made until then are kept.
-/

namespace Oxidize

/-- The derive tags that every declaration gets. Reference: `BASE_DERIVES`. -/
def baseDerives : List String :=
  ["Debug", "Clone", "PartialEq"]

/-- The derive tags of a declaration with the given tags, each once. -/
def allDerives (tags : List String) : List String :=
  tags.foldl (fun all tag => if all.contains tag then all else all ++ [tag]) baseDerives

/-- The derive attribute of a declaration. Reference: `derive_attr`. -/
def deriveAttribute (tags : List String) : String :=
  "#[derive(" ++ commaList (allDerives tags) ++ ")]\n"

/-- The text of a field with its type. -/
def FieldDecl.text (f : FieldDecl) : String :=
  Name.value f.name ++ ": " ++ f.ty.text .field

/-- The text of an aggregate. Reference: `emit_struct`. -/
def StructDecl.text (s : StructDecl) : String :=
  let head := deriveAttribute s.derives ++ "pub struct " ++ Name.type s.name
  if s.fields.isEmpty then head ++ " \x7b\x7d\n"
  else
    head ++ " \x7b\n" ++ String.join (s.fields.map fun f => "    pub " ++ f.text ++ ",\n") ++ "\x7d\n"

/-- The text of a variant. Reference: the loop of `emit_enum`. -/
def VariantDecl.text (v : VariantDecl) : String :=
  let name := Name.type v.name
  match v.shape with
  | .tuple (t :: ts) => callText name ((t :: ts).map (·.text .field))
  | .struct (f :: fs) => recordText name ((f :: fs).map (·.text))
  | _ => name

/-- The text of an enum. Reference: `emit_enum`. -/
def EnumDecl.text (e : EnumDecl) : String :=
  deriveAttribute e.derives ++ "pub enum " ++ Name.type e.name ++ " \x7b\n" ++
    String.join (e.variants.map fun v => "    " ++ v.text ++ ",\n") ++ "\x7d\n"

/-- The text of an alias. Reference: the aliases of `emit_program`. -/
def AliasDecl.text (a : AliasDecl) : String :=
  "pub type " ++ Name.type a.name ++ " = " ++ a.target.text .field ++ ";\n"

/-- Lines, each ended. -/
def joinLines (lines : List String) : String :=
  String.join (lines.map (· ++ "\n"))

namespace FunctionDecl

/-- The text of a receiver. Reference: the receiver in `emit_function`. -/
def receiverText (usage : UsageReport) : Receiver → String
  | .byRef => "&self"
  | .byMut => "&mut self"
  | .byValue => mutText (usage.needsMut 0) ++ "self"

/-- The text of a parameter, the variable with the given number. Reference: the parameters in
`emit_function`. -/
def paramText (usage : UsageReport) (p : Param) (id : BindingId) : String :=
  mutText (p.mutable || usage.needsMut id) ++ Name.value p.name ++ ": " ++ p.ty.text .loc

/-- The texts of the receiver and the parameters. -/
def paramTexts (usage : UsageReport) (f : FunctionDecl) : List String :=
  let receiver := (f.receiver.map (receiverText usage)).toList
  receiver ++ (f.params.zipIdx receiver.length).map fun (p, id) => paramText usage p id

/-- The first line of a function. -/
def headText (cx : FnContext) (f : FunctionDecl) : String :=
  (if f.isPublic && f.name != "main" then "pub " else "") ++ "fn " ++
    callText (Name.value f.name) (f.paramTexts cx.usage) ++
    (if cx.ret.isVoid then "" else " -> " ++ f.ret.text .ret) ++ " \x7b"

/-- What rendering the body of a function knows beforehand. -/
def context (r : Registry) (copy : CopySet) (f : FunctionDecl) : FnContext :=
  ⟨r, copy, f.usage copy, r.normalize f.ret⟩

/-- The lines of a function at the given level of indentation. -/
def emitLines (cx : FnContext) (f : FunctionDecl) : Emitting Unit := do
  Emitting.line (f.headText cx)
  Emitting.indented (Stmt.emitBody cx f.body.stmts)
  Emitting.line "\x7d"

/-- The emission of a function at the given level of indentation. Reference: `emit_function`. -/
def emit (r : Registry) (copy : CopySet) (indent : Nat) (f : FunctionDecl) :
    EStateM.Result PendingLiteral Emission Unit :=
  let cx := f.context r copy
  (f.emitLines cx).run ⟨f.signatureBindings, [], indent, [], 0, [cx.usage.note f]⟩

end FunctionDecl

/-- What has been emitted of a program. -/
structure ItemEmission where
  items : List String
  fallthroughs : Nat
  notes : List Note

/-- Emission of items. What has been emitted is known also where it fails. -/
abbrev EmittingItems := EStateM PendingLiteral ItemEmission

/-- One more item. -/
def emitItem (text : String) : EmittingItems Unit :=
  modify fun s => { s with items := s.items ++ [text] }

/-- The text of a function, with the number of its cases that fall through. -/
def emitFunction (r : Registry) (copy : CopySet) (indent : Nat) (f : FunctionDecl) :
    EmittingItems (String × Nat) := fun s =>
  match f.emit r copy indent with
  | .ok _ e => .ok (joinLines e.lines, e.fallthroughs) { s with notes := s.notes ++ e.notes }
  | .error p e => .error p { s with notes := s.notes ++ e.notes }

/-- The item of a method block. Cases of its methods that fall through are not counted. Reference:
`emit_impl`. -/
def emitImpl (r : Registry) (copy : CopySet) (b : ImplBlock) : EmittingItems Unit := do
  let methods ← b.methods.mapM fun m => return (← emitFunction r copy 1 m).1
  emitItem ("impl " ++ Name.type b.target ++ " \x7b\n" ++ String.intercalate "\n" methods ++ "\x7d\n")

/-- The item of a function. -/
def emitFunctionItem (r : Registry) (copy : CopySet) (f : FunctionDecl) : EmittingItems Unit := do
  let (text, fallthroughs) ← emitFunction r copy 0 f
  modify fun s => { s with fallthroughs := s.fallthroughs + fallthroughs }
  emitItem text

/-- The lines of a text: they end at line feeds, and a carriage return before one is dropped. -/
def textLines (text : String) : List String :=
  let pieces := text.splitOn "\n"
  let ended := pieces.dropLast.map fun l =>
    if l.toList.getLast? == some '\r' then String.ofList l.toList.dropLast else l
  match pieces.getLast? with
  | some "" | none => ended
  | some last => ended ++ [last]

/-- A header as comment lines, with a blank line below. Reference: the header of `emit_program`. -/
def headerText : Option String → String
  | none => ""
  | some header => String.join ((textLines header).map fun l => "// " ++ l ++ "\n") ++ "\n"

namespace Program

/-- The items of a program, with the note that ends their emission. -/
def emitItems (p : Program) (r : Registry) : EmittingItems Unit := do
  let copy := CopySet.ofProgram p r
  (p.structs.map (·.text)).forM emitItem
  (p.enums.map (·.text)).forM emitItem
  (p.aliases.map (·.text)).forM emitItem
  p.impls.forM (emitImpl r copy)
  p.functions.forM (emitFunctionItem r copy)
  modify fun s => { s with notes := s.notes ++ [.emitted s.items.length s.fallthroughs] }

/-- The source of a program, judged by the given declarations. Reference: `emit_program`. -/
def emit (p : Program) (r : Registry) (header : Option String) :
    Traced Note (Except PendingLiteral String) :=
  match (p.emitItems r).run ⟨[], 0, []⟩ with
  | .ok _ s => ⟨.ok (headerText header ++ String.intercalate "\n" s.items), s.notes⟩
  | .error e s => ⟨.error e, s.notes⟩

end Program

end Oxidize
