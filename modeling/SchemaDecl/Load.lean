import SchemaDecl.Compile
import SchemaDecl.FileTree.Script
import SchemaDecl.Schema.Reader

/-!
# Documents from files

A document is read from a JSON text, or from a file of such text, and compiled in one step.  A file that cannot
be read, a text that cannot be decoded and a document that cannot be compiled are three different failures
(`BuildError`), found in this order.
-/

namespace SchemaDecl

/-- Why a document cannot be had from a text or a file. -/
inductive LoadError where
  | file (e : FileError)
  | json (fault : Json.Fault)
  deriving DecidableEq

/-- Why a text or a file does not compile. -/
inductive BuildError where
  | load (e : LoadError)
  | compile (e : CompileError)
  deriving DecidableEq

def Document.load (path : String) : Script (Except LoadError Document) :=
  .readText path fun
    | .error e => .done (.error (.file e))
    | .ok text => .done ((Document.parse text).mapError .json)

namespace Config

def compileText (config : Config) (text : String) : Except BuildError Output :=
  match Document.parse text with
  | .error fault => .error (.load (.json fault))
  | .ok d => (config.compileDocument d).mapError .compile

def compileFile (config : Config) (path : String) : Script (Except BuildError Output) :=
  .readText path fun
    | .error e => .done (.error (.load (.file e)))
    | .ok text => .done (config.compileText text)

end Config

end SchemaDecl
