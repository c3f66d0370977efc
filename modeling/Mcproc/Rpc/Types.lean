import Mathlib.Data.List.Basic

namespace Rpc

inductive Number where
  | posInt (n : UInt64)
  | negInt (n : Int64)
  | float (bits : UInt64)
  deriving DecidableEq, Repr

-- Objects keep their members as the text has them, repeated names included.
inductive Value where
  | null
  | bool (b : Bool)
  | number (n : Number)
  | string (s : String)
  | array (elements : List Value)
  | object (members : List (String × Value))

namespace Value

-- Where a name is repeated the last member is the one a map keeps.
def get : Value → String → Option Value
  | .object members, name => (members.reverse.find? (·.1 = name)).map Prod.snd
  | _, _ => none

def asStr : Value → Option String
  | .string s => some s
  | _ => none

end Value

inductive JsonRpcId where
  | string (s : String)
  | number (n : Int64)
  | null
  deriving DecidableEq, Repr

structure JsonRpcRequest where
  jsonrpc : String
  method : String
  params : Option Value
  id : JsonRpcId

structure JsonRpcNotification where
  jsonrpc : String
  method : String
  params : Option Value

structure JsonRpcError where
  code : Int32
  message : String
  data : Option Value

structure JsonRpcResponse where
  jsonrpc : String
  result : Option Value
  error : Option JsonRpcError
  id : JsonRpcId

inductive JsonRpcMessage where
  | request (r : JsonRpcRequest)
  | response (r : JsonRpcResponse)
  | notification (n : JsonRpcNotification)
  | batch (messages : List JsonRpcMessage)

namespace ErrorCodes

def parseError : Int32 := -32700
def invalidRequest : Int32 := -32600
def methodNotFound : Int32 := -32601
def invalidParams : Int32 := -32602
def internalError : Int32 := -32603
def serverError : Int32 := -32000

end ErrorCodes

inductive McpMethod where
  | initializeServer
  | shutdown
  | toolsList
  | toolsCall
  | custom (method : String)
  deriving DecidableEq, Repr

def McpMethod.fromStr (s : String) : McpMethod :=
  if s = "initialize" then .initializeServer
  else if s = "shutdown" then .shutdown
  else if s = "tools/list" then .toolsList
  else if s = "tools/call" then .toolsCall
  else .custom s

inductive Error where
  | transport (message : String)
  | protocol (message : String)
  | serialization (message : String)
  | io (message : String)
  | methodNotFound (message : String)
  | invalidParams (message : String)
  | toolNotFound (name : String)
  | internal (message : String)
  | notImplemented (message : String)
  deriving DecidableEq, Repr

def Error.toString : Error → String
  | .transport message => "Transport error: " ++ message
  | .protocol message => "Protocol error: " ++ message
  | .serialization message => "Serialization error: " ++ message
  | .io message => "IO error: " ++ message
  | .methodNotFound message => "Method not found: " ++ message
  | .invalidParams message => "Invalid params: " ++ message
  | .toolNotFound name => "Tool not found: " ++ name
  | .internal message => "Internal error: " ++ message
  | .notImplemented message => "Not implemented: " ++ message

end Rpc
