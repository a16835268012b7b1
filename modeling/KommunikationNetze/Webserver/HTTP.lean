import KommunikationNetze.CLib.CString

/-! The constants of HTTP. -/
namespace KommunikationNetze.Webserver
open CLib

inductive HTTPMethod where
  | kHTTPMethodGet
  | kHTTPMethodUnkown
  deriving DecidableEq, Repr

inductive HTTPVersion where
  | kHTTPVersion_1_0
  | kHTTPVersion_1_1
  | kHTTPVersionUnkown
  deriving DecidableEq, Repr

inductive HTTPStatusCode where
  | kHTTPContinue
  | kHTTPSwitchingProtocols
  | kHTTPOK
  | kHTTPCreated
  | kHTTPAccepted
  | kHTTPNonAuthoritativeInformation
  | kHTTPNoContent
  | kHTTPResetContent
  | kHTTPPartialContent
  | kHTTPMultipleChoices
  | kHTTPMovedPermanently
  | kHTTPFound
  | kHTTPSeeOther
  | kHTTPNotModified
  | kHTTPUseProxy
  | kHTTPTemporaryRedirect
  | kHTTPBadRequest
  | kHTTPBadUnauthorized
  | kHTTPBadPaymentRequired
  | kHTTPBadForbidden
  | kHTTPBadNotFound
  | kHTTPBadMethodNotAllowed
  | kHTTPBadNotAcceptable
  | kHTTPBadProxyAuthenticationRequired
  | kHTTPBadRequestTimeout
  | kHTTPBadConflict
  | kHTTPBadGone
  | kHTTPBadLengthRequired
  | kHTTPBadPreconditionFailed
  | kHTTPBadRequestEntityTooLarge
  | kHTTPBadRequestURITooLong
  | kHTTPBadUnsupportedMediaType
  | kHTTPBadRequestedRangeNotSatisfiable
  | kHTTPBadExpectationFailed
  | kHTTPErrorNotImplemented
  | kHTTPErrorBadGateway
  | kHTTPErrorServiceUnavailable
  | kHTTPErrorGatewayTimeout
  | kHTTPErrorVersionNotSupported
  deriving DecidableEq, Repr

/-- The number of the constant. -/
def HTTPStatusCode.value : HTTPStatusCode → Nat
  | .kHTTPContinue => 100
  | .kHTTPSwitchingProtocols => 101
  | .kHTTPOK => 200
  | .kHTTPCreated => 201
  | .kHTTPAccepted => 202
  | .kHTTPNonAuthoritativeInformation => 203
  | .kHTTPNoContent => 204
  | .kHTTPResetContent => 205
  | .kHTTPPartialContent => 206
  | .kHTTPMultipleChoices => 300
  | .kHTTPMovedPermanently => 301
  | .kHTTPFound => 302
  | .kHTTPSeeOther => 303
  | .kHTTPNotModified => 304
  | .kHTTPUseProxy => 305
  | .kHTTPTemporaryRedirect => 307
  | .kHTTPBadRequest => 400
  | .kHTTPBadUnauthorized => 401
  | .kHTTPBadPaymentRequired => 402
  | .kHTTPBadForbidden => 403
  | .kHTTPBadNotFound => 404
  | .kHTTPBadMethodNotAllowed => 405
  | .kHTTPBadNotAcceptable => 406
  | .kHTTPBadProxyAuthenticationRequired => 407
  | .kHTTPBadRequestTimeout => 408
  | .kHTTPBadConflict => 409
  | .kHTTPBadGone => 410
  | .kHTTPBadLengthRequired => 411
  | .kHTTPBadPreconditionFailed => 412
  | .kHTTPBadRequestEntityTooLarge => 413
  | .kHTTPBadRequestURITooLong => 414
  | .kHTTPBadUnsupportedMediaType => 415
  | .kHTTPBadRequestedRangeNotSatisfiable => 416
  | .kHTTPBadExpectationFailed => 417
  | .kHTTPErrorNotImplemented => 501
  | .kHTTPErrorBadGateway => 502
  | .kHTTPErrorServiceUnavailable => 503
  | .kHTTPErrorGatewayTimeout => 504
  | .kHTTPErrorVersionNotSupported => 505

def httpStatusNameFromCode : HTTPStatusCode → CString
  | .kHTTPContinue => literal "Continue"
  | .kHTTPSwitchingProtocols => literal "Switching Protocols"
  | .kHTTPOK => literal "OK"
  | .kHTTPCreated => literal "Created"
  | .kHTTPAccepted => literal "Accepted"
  | .kHTTPNonAuthoritativeInformation => literal "Non Authoritative Information"
  | .kHTTPNoContent => literal "No Content"
  | .kHTTPResetContent => literal "Reset Content"
  | .kHTTPPartialContent => literal "Partial Content"
  | .kHTTPMultipleChoices => literal "Multiple Choices"
  | .kHTTPMovedPermanently => literal "Moved Permanently"
  | .kHTTPFound => literal "Found"
  | .kHTTPSeeOther => literal "See Other"
  | .kHTTPNotModified => literal "Not Modified"
  | .kHTTPUseProxy => literal "Use Proxy"
  | .kHTTPTemporaryRedirect => literal "Temporary Redirect"
  | .kHTTPBadRequest => literal "Bad Request"
  | .kHTTPBadUnauthorized => literal "Unauthorized"
  | .kHTTPBadPaymentRequired => literal "Payment Required"
  | .kHTTPBadForbidden => literal "Forbidden"
  | .kHTTPBadNotFound => literal "Not Found"
  | .kHTTPBadMethodNotAllowed => literal "Method Not Allowed"
  | .kHTTPBadNotAcceptable => literal "Not Acceptable"
  | .kHTTPBadProxyAuthenticationRequired => literal "Proxy Authentication Required"
  | .kHTTPBadRequestTimeout => literal "Request Timeout"
  | .kHTTPBadConflict => literal "Conflict"
  | .kHTTPBadGone => literal "Gone"
  | .kHTTPBadLengthRequired => literal "Length Required"
  | .kHTTPBadPreconditionFailed => literal "Precondition Failed"
  | .kHTTPBadRequestEntityTooLarge => literal "Request Entity Too Large"
  | .kHTTPBadRequestURITooLong => literal "Request URI Too Long"
  | .kHTTPBadUnsupportedMediaType => literal "Unsupported Media Type"
  | .kHTTPBadRequestedRangeNotSatisfiable => literal "Requested Range Not Satisfiable"
  | .kHTTPBadExpectationFailed => literal "Expectation Failed"
  | .kHTTPErrorNotImplemented => literal "Not Implemented"
  | .kHTTPErrorBadGateway => literal "Bad Gateway"
  | .kHTTPErrorServiceUnavailable => literal "Service Unavailable"
  | .kHTTPErrorGatewayTimeout => literal "Gateway Timeout"
  | .kHTTPErrorVersionNotSupported => literal "Version Not Supported"

def kHTTPLineDelimiter : CString := literal "\r\n"

def kHTTPContentDelimiter : CString := literal "\r\n\r\n"

def kHTTPHeaderDelimiter : CString := literal ":"

end KommunikationNetze.Webserver
