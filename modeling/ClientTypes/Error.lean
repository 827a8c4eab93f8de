/-!
# Errors

Resolution cannot fail. What can is reading the inputs and finding what was asked for.
-/

namespace ClientTypes

/-- Why a file could not be read: what the operating system says, under its code, or what is wrong
with the content. -/
structure FileFault where
  text : String
  code : Option Nat := none
deriving DecidableEq, Repr, Inhabited

namespace FileFault

def notFound : FileFault := ⟨"No such file or directory", some 2⟩

def permissionDenied : FileFault := ⟨"Permission denied", some 13⟩

def notDirectory : FileFault := ⟨"Not a directory", some 20⟩

def isDirectory : FileFault := ⟨"Is a directory", some 21⟩

def nameTooLong : FileFault := ⟨"File name too long", some 36⟩

def linkLoop : FileFault := ⟨"Too many levels of symbolic links", some 40⟩

def notText : FileFault := ⟨"stream did not contain valid UTF-8", none⟩

def known : List FileFault :=
  [notFound, permissionDenied, notDirectory, isDirectory, nameTooLong, linkLoop]

/-- The fault with the given code; one that is not known goes by the given text. -/
def ofCode (code : Nat) (text : String) : FileFault :=
  (known.find? (·.code == some code)).getD ⟨text, some code⟩

def message (fault : FileFault) : String :=
  match fault.code with
  | some code => fault.text ++ " (os error " ++ toString code ++ ")"
  | none => fault.text

end FileFault

/-- What can go wrong. -/
inductive Error where
  | unreadable (path : String) (fault : FileFault)
  | malformedProject
  | malformedConfig
  | unknownSubstitute (spelling : String)
  | unknownContract (name : String)
deriving DecidableEq, Repr, Inhabited

def Error.message : Error → String
  | .unreadable path fault => "failed to read " ++ path ++ ": " ++ fault.message
  | .malformedProject => "failed to parse project IR"
  | .malformedConfig => "failed to parse generator config"
  | .unknownSubstitute spelling => "unknown substitution target '" ++ spelling ++ "'"
  | .unknownContract name => "contract '" ++ name ++ "' not found"

end ClientTypes
