import EventLedger.Base.Url
import EventLedger.Common.Contracts

namespace Http

inductive Method
  | get
  | post
  deriving DecidableEq

-- What a response carries: JSON, or a text that is not JSON.
inductive Body
  | json (j : Document)
  | text (t : Text)

structure Response where
  status : ℕ
  body : Body

-- The path of a request is the encoded one.
structure Request where
  method : Method
  path : Text
  body : Option Document

namespace Response

-- JSON with a status below 400.
def isSuccess : Response → Bool
  | ⟨status, .json _⟩ => status < 400
  | _                 => false

def detail (status : ℕ) (text : Text) : Response where
  status
  body := .json ⟨.obj [("detail".toList, .str text)], Json.wf_obj.mpr (by simp [Json.WF])⟩

-- What a server answers when a handler raises.
def internalError : Response where
  status := 500
  body := .text "Internal Server Error".toList

def errorFields (loc : List Text) (type : Text) : List (Text × Json) :=
  [("type".toList, .str type), ("loc".toList, .arr (("body".toList :: loc).map .str))]

theorem errorFields_wf (loc : List Text) (type : Text) : (Json.obj (errorFields loc type)).WF := by
  have hn : ["type".toList, "loc".toList].Nodup := by decide
  refine Json.wf_obj.mpr ⟨hn, ?_⟩
  simp only [errorFields, List.mem_cons, List.not_mem_nil, or_false, forall_eq_or_imp, forall_eq,
    Json.wf_arr, List.forall_mem_map]
  exact ⟨trivial, trivial, fun _ _ => trivial⟩

-- The first of the errors that a validation reports.
def unprocessable (loc : List Text) (type : Text) : Response where
  status := 422
  body := .json ⟨.obj [("detail".toList, .arr [.obj (errorFields loc type)])], by
    refine Json.wf_obj.mpr ⟨by simp, ?_⟩
    simp only [List.mem_singleton, forall_eq, Json.wf_arr]
    exact errorFields_wf loc type⟩

def ofInvalid : Invalid → Response
  | .field loc type => unprocessable (if loc = [] then [] else [loc]) type
  | .overflow       => internalError

-- The rendering of a content fails on the floats that JSON does not have.
def render (status : ℕ) (content : Document) : Response :=
  if content.val.isStandard then
    { status, body := .json content }
  else
    internalError

theorem ofInvalid_isSuccess (e : Invalid) : (ofInvalid e).isSuccess = false := by
  cases e <;> rfl

theorem render_of_isStandard {status : ℕ} {content : Document} (h : content.val.isStandard) :
    render status content = { status, body := .json content } :=
  if_pos h

end Response

end Http
