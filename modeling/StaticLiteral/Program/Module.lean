import StaticLiteral.Program.Basic

/-!
# Modules

A relative specifier leads to the first of its candidate paths that is a file of the program; any
other specifier leads nowhere. Relative specifiers at the top of a file that lead nowhere are noted
as anomalies.
-/

namespace StaticLiteral

/-- A path without its last three characters if it ends as a compiled file does. -/
def withoutCompiledSuffix? (path : Text) : Option Text :=
  if path.endsWith (Text.ofString ".js") then some (path.take (path.length - 3)) else none

/-- The paths that a specifier in a file may mean, in the order in which they are tried. -/
def moduleCandidates (config : Config) (fromFile specifier : Text) : List Text :=
  let base := Path.normalize (Path.join (Path.directory fromFile) specifier)
  let stems := base :: (withoutCompiledSuffix? base).toList
  stems
    ++ stems.flatMap (fun stem => config.moduleExtensions.map (stem ++ ·))
    ++ stems.flatMap (fun stem => config.indexFiles.map (Path.join stem))

/-- An anomaly of a file of a program. -/
structure FileAnomaly where
  file : Text
  anomaly : Anomaly

/-- What is noted of a file that is too deep to be bound. -/
def tooDeepToBind : Anomaly := ⟨.nestingTooDeep, Text.ofString "binder recursion limit"⟩

/-- The specifier of an import or export. -/
def Node.moduleSpecifier? : Node → Option Text
  | .importDeclaration _ module _ => some module
  | .exportDeclaration _ _ module _ => module
  | _ => none

namespace Program

/-- The file that a specifier in a file means. -/
def resolveModule (p : Program) (fromFile specifier : Text) : Option Text :=
  if Path.isRelative specifier then
    (moduleCandidates p.config fromFile specifier).find? fun path => (p.file? path).isSome
  else none

/-- Whether a specifier is relative and means no file. -/
def isBroken (p : Program) (fromFile specifier : Text) : Bool :=
  Path.isRelative specifier && (p.resolveModule fromFile specifier).isNone

/-- What is noted of the specifiers in a file. -/
def specifierAnomalies (p : Program) (f : BoundFile) : List Anomaly :=
  ((f.statements.filterMap Node.moduleSpecifier?).filter (p.isBroken f.path)).map
    fun specifier => ⟨.unresolvedModule, specifier⟩

/-- All anomalies: those of reading the files, then those of binding them, then those of their
modules. -/
def anomalies (p : Program) : List FileAnomaly :=
  let ofEach (anomaliesOf : BoundFile → List Anomaly) : List FileAnomaly :=
    p.files.flatMap fun f => (anomaliesOf f).map (⟨f.path, ·⟩)
  ofEach (·.source.anomalies) ++ ofEach (fun f => if f.isTooDeep then [tooDeepToBind] else [])
    ++ ofEach p.specifierAnomalies

end Program

end StaticLiteral
