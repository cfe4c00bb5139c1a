import Mathlib.Logic.Function.Basic
import Hical.Http

namespace Hical

def kMaxPathSegments : Nat := 32

def kMaxParamValueLength : Nat := 1024

/-- Captured path parameters, in the order of their segments. -/
abbrev ParamList := List (Bytes × Bytes)

/-- What a route entry holds: a coroutine handler, a plain handler, or a prebuilt chain. -/
inductive Endpoint (η : Type) where
  | asyncHandler (h : η)
  | syncHandler (h : η)
  | compileTimeChain (h : η)
  deriving DecidableEq, Repr

structure ParamRouteEntry (η : Type) where
  path : Bytes
  endpoint : Endpoint η
  deriving DecidableEq, Repr

structure WildcardRouteEntry (η : Type) where
  pattern : Bytes
  pre : Bytes
  paramName : Bytes
  endpoint : Endpoint η
  deriving DecidableEq, Repr

inductive RouteKind where
  | hStatic | hParam | hWildcard
  deriving DecidableEq, Repr

/-- The routing tables. A hash map is the function it denotes; an absent mask is zero and an absent
list is empty, which is what `operator[]` creates. -/
structure Router (η : Type) where
  staticRoutes : HttpMethod → Bytes → Option (Endpoint η)
  paramRoutesByMethod : HttpMethod → List (ParamRouteEntry η)
  wildcardRoutesByMethod : HttpMethod → List (WildcardRouteEntry η)
  staticPathMethods : Bytes → List HttpMethod
  firstSegmentMethodMasks : Bytes → BitVec 32
  dynamicFirstSegmentMask : BitVec 32
  wildcardSegmentPrefixMasks : List (Bytes × BitVec 32)
  /-- A valid perfect-hash table maps a key to an index, and the index to an entry pointer that is
  null when the key was never registered. -/
  phrLookup : Option (HttpMethod → Bytes → Option (Option (Endpoint η)))

def Router.empty (η : Type) : Router η where
  staticRoutes := fun _ _ => none
  paramRoutesByMethod := fun _ => []
  wildcardRoutesByMethod := fun _ => []
  staticPathMethods := fun _ => []
  firstSegmentMethodMasks := fun _ => 0
  dynamicFirstSegmentMask := 0
  wildcardSegmentPrefixMasks := []
  phrLookup := none

def star : UInt8 := 42

def isWildcardRoute (path : Bytes) : Bool :=
  match (cut star path).2 with
  | some rest => !rest.isEmpty
  | none => false

def isParamRoute (path : Bytes) : Bool :=
  path.contains 123

/-- Drop one leading `/`. -/
def dropSlash : Bytes → Bytes
  | [] => []
  | b :: s => if b = slash then s else b :: s

def firstPathSegment (path : Bytes) : Bytes :=
  (cut slash (dropSlash path)).1

def isParamSegment (segment : Bytes) : Bool :=
  3 ≤ segment.length && segment.head? == some 123 && segment.getLast? == some 125

def methodBit (method : HttpMethod) : BitVec 32 :=
  1#32 <<< method.toNat

section Registration
variable {η : Type}

def Router.addFirstSegment (r : Router η) (segment : Bytes) (bit : BitVec 32) : Router η :=
  { r with firstSegmentMethodMasks :=
      Function.update r.firstSegmentMethodMasks segment (r.firstSegmentMethodMasks segment ||| bit) }

/-- Merge the bit into the entry of that token, or append one. -/
def indexWildcardSegmentPrefix (bit : BitVec 32) (token : Bytes) :
    List (Bytes × BitVec 32) → List (Bytes × BitVec 32)
  | [] => [(token, bit)]
  | e :: es =>
    if e.1 = token then (e.1, e.2 ||| bit) :: es
    else e :: indexWildcardSegmentPrefix bit token es

def Router.indexRouteFirstSegment (r : Router η) (method : HttpMethod) (path : Bytes)
    (kind : RouteKind) : Router η :=
  let bit := methodBit method
  match kind with
  | .hWildcard =>
    match (cut star path).1 with
    | [] => { r with dynamicFirstSegmentMask := r.dynamicFirstSegmentMask ||| bit }
    | b :: rest =>
      if b ≠ slash then { r with dynamicFirstSegmentMask := r.dynamicFirstSegmentMask ||| bit }
      else match cut slash rest with
        -- the star stands inside the first segment
        | (_, none) => { r with wildcardSegmentPrefixMasks :=
            indexWildcardSegmentPrefix bit rest r.wildcardSegmentPrefixMasks }
        | (segment, some _) => r.addFirstSegment segment bit
  | .hParam =>
    if isParamSegment (firstPathSegment path) then
      { r with dynamicFirstSegmentMask := r.dynamicFirstSegmentMask ||| bit }
    else r.addFirstSegment (firstPathSegment path) bit
  | .hStatic => r.addFirstSegment (firstPathSegment path) bit

def Router.addWildcard (r : Router η) (method : HttpMethod) (path : Bytes)
    (endpoint : Endpoint η) : Router η :=
  { r with
    wildcardRoutesByMethod := Function.update r.wildcardRoutesByMethod method
      (r.wildcardRoutesByMethod method ++
        [⟨path, (cut star path).1, ((cut star path).2).getD [], endpoint⟩]) }

def Router.addParam (r : Router η) (method : HttpMethod) (path : Bytes)
    (endpoint : Endpoint η) : Router η :=
  { r with
    paramRoutesByMethod := Function.update r.paramRoutesByMethod method
      (r.paramRoutesByMethod method ++ [⟨path, endpoint⟩]) }

def Router.addStatic (r : Router η) (method : HttpMethod) (path : Bytes)
    (endpoint : Endpoint η) : Router η :=
  { r with
    staticRoutes := Function.update r.staticRoutes method
      (Function.update (r.staticRoutes method) path (some endpoint))
    staticPathMethods := Function.update r.staticPathMethods path
      (r.staticPathMethods path ++ [method]) }

/-- The common body of the `route` and `compileTimeRoute` overloads. -/
def Router.register (r : Router η) (method : HttpMethod) (path : Bytes)
    (endpoint : Endpoint η) : Router η :=
  if isWildcardRoute path then
    (r.addWildcard method path endpoint).indexRouteFirstSegment method path .hWildcard
  else if isParamRoute path then
    (r.addParam method path endpoint).indexRouteFirstSegment method path .hParam
  else
    (r.addStatic method path endpoint).indexRouteFirstSegment method path .hStatic

def Router.route (r : Router η) (method : HttpMethod) (path : Bytes) (handler : η) : Router η :=
  r.register method path (.asyncHandler handler)

def Router.routeSync (r : Router η) (method : HttpMethod) (path : Bytes) (handler : η) :
    Router η :=
  r.register method path (.syncHandler handler)

def Router.compileTimeRoute (r : Router η) (method : HttpMethod) (path : Bytes) (chain : η) :
    Router η :=
  r.register method path (.compileTimeChain chain)

end Registration

/-- The segment loop of `matchParamPath`; the first argument is how many segments may still be
compared before the depth limit is reached. -/
def matchSegments : Nat → Bytes → Bytes → Option ParamList
  | budget, pattern, path =>
    if pattern = [] ∨ path = [] then
      -- both sides must run out together
      if pattern = [] ∧ path = [] then some [] else none
    else match budget with
      | 0 => none
      | budget + 1 =>
        let patSeg := (cut slash pattern).1
        let reqSeg := (cut slash path).1
        let pattern := ((cut slash pattern).2).getD []
        let path := ((cut slash path).2).getD []
        if isParamSegment patSeg then
          if kMaxParamValueLength < reqSeg.length then none
          else (matchSegments budget pattern path).map ((patSeg.tail.dropLast, reqSeg) :: ·)
        else if patSeg ≠ reqSeg then none
        else matchSegments budget pattern path

def matchParamPath (pattern path : Bytes) : Option ParamList :=
  matchSegments kMaxPathSegments (dropSlash pattern) (dropSlash path)

/-- The captured remainder, unless it is too long. -/
def matchWildcardPath (pre paramName path : Bytes) : Option ParamList :=
  let captured := path.drop pre.length
  if kMaxParamValueLength < captured.length then none
  else if paramName.isEmpty then some []
  else some [(paramName, captured)]

def urlDecode : Bytes → Bytes
  | [] => []
  | c :: h :: l :: rest =>
    if c = 37 then
      match hexDigit h, hexDigit l with
      | some hi, some lo =>
        -- a decoded NUL is dropped
        if hi * 16 + lo = 0 then urlDecode rest
        else UInt8.ofNat (hi * 16 + lo) :: urlDecode rest
      | _, _ => c :: urlDecode (h :: l :: rest)
    else if c = 43 then SP :: urlDecode (h :: l :: rest)
    else c :: urlDecode (h :: l :: rest)
  | c :: s => (if c = 43 then SP else c) :: urlDecode s

/-- What a lookup found. -/
inductive Matched (η : Type) where
  | staticEntry (e : Endpoint η)
  | paramEntry (e : ParamRouteEntry η)
  | wildcardEntry (e : WildcardRouteEntry η)
  deriving DecidableEq, Repr

structure ResolveResult (η : Type) where
  entry : Option (Matched η)
  allowedMethods : Bytes
  pathTooDeep : Bool
  /-- The `setParam` calls made on the request. -/
  params : ParamList
  deriving DecidableEq, Repr

def ResolveResult.isMatch (r : ResolveResult η) : Bool :=
  r.entry.isSome

def ResolveResult.isMethodNotAllowed (r : ResolveResult η) : Bool :=
  !r.isMatch && !r.allowedMethods.isEmpty

def kMethods : List HttpMethod :=
  [.hGet, .hPost, .hPut, .hDelete, .hPatch, .hHead, .hOptions]

def allowedMethodsFromMask (mask : BitVec 32) : Bytes :=
  kMethods.foldl (fun out method =>
    if mask &&& methodBit method = 0 then out
    else (if out = [] then out else out ++ bytes ", ") ++ httpMethodToString method) []

section Lookup
variable {η : Type}

def WildcardRouteEntry.takes (e : WildcardRouteEntry η) (reqPath : Bytes) : Bool :=
  e.pre.isPrefixOf reqPath

def Router.candidateMask (r : Router η) (reqPath : Bytes) : BitVec 32 :=
  let firstSegment := firstPathSegment reqPath
  r.wildcardSegmentPrefixMasks.foldl
    (fun mask e => if e.1.isPrefixOf firstSegment then mask ||| e.2 else mask)
    (r.dynamicFirstSegmentMask ||| r.firstSegmentMethodMasks firstSegment)

def scanGroups (otherMethods : BitVec 32) (hit : HttpMethod → Bool) (allowMask : BitVec 32) :
    BitVec 32 :=
  HttpMethod.all.foldl (fun mask method =>
    if otherMethods &&& methodBit method = 0 then mask
    else if hit method then mask ||| methodBit method else mask) allowMask

/-- Step 4 of `resolveRoute`: the methods other than the request's under which the path exists. -/
def Router.allowMask (r : Router η) (reqMethod : HttpMethod) (reqPath : Bytes) : BitVec 32 :=
  let otherMethods := r.candidateMask reqPath &&& ~~~methodBit reqMethod
  if otherMethods = 0 then 0
  else
    let staticMask := (r.staticPathMethods reqPath).foldl
      (fun mask m => if m ≠ reqMethod then mask ||| methodBit m else mask) 0
    let paramMask := scanGroups otherMethods
      (fun m => (r.paramRoutesByMethod m).any fun e => (matchParamPath e.path reqPath).isSome)
      staticMask
    scanGroups otherMethods (fun m => (r.wildcardRoutesByMethod m).any (·.takes reqPath)) paramMask

/-- Steps 1 to 3 of `resolveRoute`: the entry of the request's own method, with the parameters it
captures. The outer option is the early return. -/
def Router.lookup (r : Router η) (reqMethod : HttpMethod) (reqPath : Bytes) :
    Option (Option (Matched η) × ParamList) :=
  match r.phrLookup.bind fun lookup => lookup reqMethod reqPath with
  | some e => some (e.map .staticEntry, [])
  | none =>
    match r.staticRoutes reqMethod reqPath with
    | some e => some (some (.staticEntry e), [])
    | none =>
      match (r.paramRoutesByMethod reqMethod).find?
          (fun e => (matchParamPath e.path reqPath).isSome) with
      | some e => some (some (.paramEntry e), (matchParamPath e.path reqPath).getD [])
      | none =>
        match (r.wildcardRoutesByMethod reqMethod).find? (·.takes reqPath) with
        -- the captured length is checked, but the verdict is not looked at
        | some e => some (some (.wildcardEntry e),
            (matchWildcardPath e.pre e.paramName reqPath).getD [])
        | none => none

def decodedPath (rawPath : Bytes) : Bytes :=
  if rawPath.any fun c => c == 37 || c == 43 then urlDecode rawPath else rawPath

def pathTooDeep (rawPath : Bytes) : Bool :=
  kMaxPathSegments < rawPath.count slash

def Router.resolveRoute (r : Router η) (reqMethod : HttpMethod) (rawPath : Bytes) :
    ResolveResult η :=
  if pathTooDeep rawPath then ⟨none, [], true, []⟩
  else
    let reqPath := decodedPath rawPath
    match r.lookup reqMethod reqPath with
    | some (entry, params) => ⟨entry, [], false, params⟩
    | none => ⟨none, allowedMethodsFromMask (r.allowMask reqMethod reqPath), false, []⟩

end Lookup

end Hical
