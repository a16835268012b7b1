import KommunikationNetze.Utils.StrHelper
import KommunikationNetze.Webserver.Dictionary
import KommunikationNetze.Webserver.HTTP

/-! Requests of the web server. A function of the parser that returns false is
`none` here: the request is released then and its fields are gone. -/
namespace KommunikationNetze.Webserver
open CLib Utils

structure HTTPRequest where
  method : HTTPMethod
  version : HTTPVersion
  path : Option CString
  headerDictionary : Dictionary CString

def httpRequestGetMethod (request : HTTPRequest) : HTTPMethod := request.method

def httpRequestGetVersion (request : HTTPRequest) : HTTPVersion := request.version

def httpRequestGetPath (request : HTTPRequest) : Option CString := request.path

def httpRequestGetHeaderValueForKey (request : HTTPRequest) (key : CString) : Option CString :=
  dictionaryGet request.headerDictionary key

/-- The classification of the first token; only its first three characters count. -/
def methodOf (methodString : CString) : HTTPMethod :=
  if strncmp methodString (literal "GET") (literal "GET").length = 0 then .kHTTPMethodGet
  else .kHTTPMethodUnkown

/-- The classification of the third token. -/
def versionOf (versionString : CString) : HTTPVersion :=
  if strncmp versionString (literal "HTTP/1.0") (literal "HTTP/1.0").length = 0 then
    .kHTTPVersion_1_0
  else if strncmp versionString (literal "HTTP/1.1") (literal "HTTP/1.1").length = 0 then
    .kHTTPVersion_1_1
  else .kHTTPVersionUnkown

def httpRequestParseActionLine (request : HTTPRequest) (line : Option CString) : Option HTTPRequest :=
  let (methodString, line) := strsepExt line (literal " ")
  let (path, line) := strsepExt line (literal " ")
  let (versionString, _) := strsepExt line (literal " ")
  match methodString, versionString with
  | some methodString, some versionString =>
      some { request with path, method := methodOf methodString, version := versionOf versionString }
  | _, _ => none

/-- What follows the key is NULL whenever the key is. -/
def httpRequestParseHeaderLine (request : HTTPRequest) (line : CString) : Option HTTPRequest :=
  match strsepExt (some line) kHTTPHeaderDelimiter with
  | (some key, some line) =>
      let value := strtrim line
      some { request with headerDictionary := dictionarySet request.headerDictionary key (some value) }
  | _ => none

/-- The loop takes the next line before every test. -/
def httpRequestParseHeader (request : HTTPRequest) (buffer : Option CString) : Option HTTPRequest :=
  match _found : (strsepExt buffer kHTTPLineDelimiter).1 with
  | none => some request
  | some line => (httpRequestParseHeaderLine request line).bind fun request =>
      httpRequestParseHeader request (strsepExt buffer kHTTPLineDelimiter).2
  termination_by strsepMeasure buffer
  decreasing_by exact strsepMeasure_strsepExt buffer kHTTPLineDelimiter _found

def httpRequestParse (request : HTTPRequest) (buffer : CString) : Option HTTPRequest :=
  let (actionLine, buffer) := strsepExt (some buffer) kHTTPLineDelimiter
  (httpRequestParseActionLine request actionLine).bind fun request =>
    httpRequestParseHeader request buffer

/-- The zeroed fields are the first constants. -/
def httpRequestCreate (buffer : CString) : Option HTTPRequest :=
  httpRequestParse
    { method := .kHTTPMethodGet, version := .kHTTPVersion_1_0, path := none,
      headerDictionary := dictionaryCreate } buffer

end KommunikationNetze.Webserver
