import Mcproc.Common.Validation

inductive McprocdError where
  | processNotFound (name : String)
  | processAlreadyExists (name : String)
  | stopError (message : String)
  | invalidRequest (message : String)
  | invalidCommand (message : String)
  | processSpawnFailed (name error : String)
  | invalidRegex (pattern error : String)
  deriving DecidableEq, Repr

inductive Code where
  | invalidArgument
  | notFound
  | alreadyExists
  | failedPrecondition
  | internal
  deriving DecidableEq, Repr

namespace McprocdError

def toString : McprocdError → String
  | .processNotFound name => "Process not found: " ++ name
  | .processAlreadyExists name => "Process already exists: " ++ name
  | .stopError message => "Failed to stop process: " ++ message
  | .invalidRequest message => "Invalid request: " ++ message
  | .invalidCommand message => "Invalid command: " ++ message
  | .processSpawnFailed name error => "Process " ++ name ++ " failed to spawn: " ++ error
  | .invalidRegex pattern error => "Invalid regex pattern " ++ pattern ++ ": " ++ error

def code : McprocdError → Code
  | .processNotFound _ => .notFound
  | .processAlreadyExists _ => .alreadyExists
  | .invalidRequest _ => .invalidArgument
  | .invalidCommand _ => .invalidArgument
  | .invalidRegex _ _ => .invalidArgument
  | _ => .internal

end McprocdError

structure StartRequest where
  name : String
  project : String
  cmd : Option String
  args : List String
  cwd : Option String
  env : Option (List (String × String))
  waitForLog : Option String
  waitTimeout : Option Nat
  toolchain : Option String
  deriving DecidableEq, Repr

namespace Launcher

def replaceAll (pat rep : List Char) : Nat → List Char → List Char
  | _, [] => []
  | skip + 1, _ :: cs => replaceAll pat rep skip cs
  | 0, c :: cs =>
    if pat.isPrefixOf (c :: cs) then rep ++ replaceAll pat rep (pat.length - 1) cs
    else c :: replaceAll pat rep 0 cs

def replace (s pat rep : String) : String :=
  String.ofList (replaceAll pat.toList rep.toList 0 s.toList)

def safeByte (c : Char) : Bool := c.isAlphanum || "_@%+=:,./-".toList.contains c

def shellQuoteArg (arg : String) : String :=
  if arg ≠ "" ∧ arg.toList.all safeByte then arg
  else "'" ++ replace arg "'" "'\\''" ++ "'"

def shellQuoteArgs (args : List String) : String := " ".intercalate (args.map shellQuoteArg)

structure Toolchain where
  name : String
  commandTemplate : String
  displayTemplate : String
  deriving DecidableEq, Repr

namespace Toolchain

def shTemplate (name command : String) : Toolchain where
  name := name
  commandTemplate := command ++ " sh -c '\x7bcmd\x7d'"
  displayTemplate := command ++ " sh -c '\x7bcmd\x7d'"

def mise : Toolchain := shTemplate "mise" "mise exec --"
def asdf : Toolchain := shTemplate "asdf" "asdf exec"
def nvm : Toolchain where
  name := "nvm"
  commandTemplate := "bash -c 'source \"$NVM_DIR/nvm.sh\" && \x7bcmd\x7d'"
  displayTemplate := "nvm (bash) -c '\x7bcmd\x7d'"
def rbenv : Toolchain := shTemplate "rbenv" "rbenv exec"
def pyenv : Toolchain := shTemplate "pyenv" "pyenv exec"
def nodenv : Toolchain := shTemplate "nodenv" "nodenv exec"
def jenv : Toolchain := shTemplate "jenv" "jenv exec"
def tfenv : Toolchain := shTemplate "tfenv" "tfenv exec"
def goenv : Toolchain := shTemplate "goenv" "goenv exec"
def rustup : Toolchain := shTemplate "rustup" "rustup run stable"

def all : List Toolchain :=
  [mise, asdf, nvm, rbenv, pyenv, nodenv, jenv, tfenv, goenv, rustup]

def allSupported : String := ", ".intercalate (all.map name)

def parse (s : String) : Option Toolchain :=
  all.find? fun t => t.name.toList.map Char.toLower = s.toList.map Char.toLower

def wrapCommand (t : Toolchain) (shellCommand : String) : String × String :=
  let escapedCmd := replace shellCommand "'" "'\\''"
  (replace t.commandTemplate "\x7bcmd\x7d" escapedCmd,
   replace t.displayTemplate "\x7bcmd\x7d" shellCommand)

end Toolchain

def shellCommand (args : List String) (cmd : Option String) : Except McprocdError String :=
  if args ≠ [] then .ok (shellQuoteArgs args)
  else match cmd with
    | some c => .ok c
    | none => .error (.invalidCommand "Either cmd or args must be provided")

def needsShell (command : String) : Bool :=
  command.toList.any fun c => "|><&;$`*?[~".toList.contains c

def finalCommand (toolchain : Option String) (command : String) : Except McprocdError String :=
  match toolchain with
  | some tool =>
    match Toolchain.parse tool with
    | some t => .ok ("exec " ++ (t.wrapCommand command).1)
    | none => .error (.invalidCommand ("Unsupported toolchain: '" ++ tool ++
        "'. Supported toolchains: " ++ Toolchain.allSupported))
  | none => .ok (if needsShell command then command else "exec " ++ command)

def launchCommand (r : StartRequest) : Except McprocdError String :=
  match shellCommand r.args r.cmd with
  | .error e => .error e
  | .ok command => finalCommand r.toolchain command

variable (compileRegex : String → Except String Unit)

def parseWaitPattern (waitForLog : Option String) : Except McprocdError (Option String) :=
  match waitForLog with
  | none => .ok none
  | some pattern =>
    match compileRegex pattern with
    | .ok () => .ok (some pattern)
    | .error e => .error (.invalidRegex pattern e)

def checkLaunch (r : StartRequest) : Except McprocdError String :=
  match parseWaitPattern compileRegex r.waitForLog with
  | .error e => .error e
  | .ok _ => launchCommand r

example : (Toolchain.mise.wrapCommand "echo don't").1 = "mise exec -- sh -c 'echo don'\\''t'" := by
  decide

end Launcher
