import Playground.Compile.Result
/-!
# Why a compile run fails

A compiler answers, or it says itself why it cannot, or the call to it breaks.
All of these come to a result or to one kind of failure, so nothing else can
come out of a compile run.
-/

namespace Playground

/-- How a call to the compiler breaks. -/
inductive CallFault where
  /-- Its process may not be started, for the reason given. -/
  | denied (reason : Text)
  /-- Its output nests too deep; the flag says whether an array does it. -/
  | tooDeep (inArray : Bool)
  /-- It breaks with a message of its own. -/
  | broke (message : Text)
deriving DecidableEq, Repr

/-- What a fault reads like. -/
def CallFault.message : CallFault → Text
  | denied reason => reason
  | tooDeep inArray =>
    text "maximum recursion depth exceeded while decoding a JSON " ++
      text (if inArray then "array" else "object") ++ text " from a unicode string"
  | broke message => message

/-- Why a compile run fails. -/
inductive CompileFailure where
  /-- No command is configured. -/
  | noCommand
  /-- The program of the command does not exist. -/
  | notInstalled (program : Text)
  /-- The command ends with a code other than zero, and with a complaint. -/
  | exited (command : List Text) (code : Int) (complaint : Text)
  /-- The output is no JSON. -/
  | notJson
  /-- The answer has this many offending fields. -/
  | malformed (offences : Nat)
  /-- The compiler refuses for a reason of its own. -/
  | refused (reason : Text)
  /-- The call breaks. -/
  | call (fault : CallFault)
deriving DecidableEq, Repr

/-- What a failure reads like. -/
def CompileFailure.message : CompileFailure → Text
  | noCommand => text "No compiler command configured"
  | notInstalled program => program ++ text " is not installed or not in PATH"
  | exited command code complaint =>
    Text.join (text " ") command ++ text " exited with " ++ Text.ofInt code ++ text ": " ++ complaint
  | notJson => text "Compiler output is not valid JSON"
  | malformed offences =>
    text "Malformed compiler response (" ++ Text.ofNat offences ++ text " error(s))"
  | refused reason => reason
  | call fault => text "Compiler call failed: " ++ fault.message

/-- What a compiler does with a request. -/
inductive CompilerReply where
  | answered (raw : Json)
  | failed (failure : CompileFailure)
  | broke (fault : CallFault)

/-- What a reply comes to. -/
def CompilerReply.result : CompilerReply → Except CompileFailure CompileResult
  | answered raw => (CompileResult.ofJson raw).mapError .malformed
  | failed failure => .error failure
  | broke fault => .error (.call fault)

end Playground
