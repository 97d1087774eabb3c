import NotProton.CompatRun.ConfTable
import NotProton.Library.Lists

/-!
# Environment — the variables a launch gives the game (`compat_run.sh`)

A game is started through its own runner clone, which exports the variables one after another, or
through the launcher app with `open --env`, where the last of a repeated name counts.  Both build
their arguments by prepending.  The exporting shell has variables of its own, which it need not pass on.
-/

open NotProton.Library

namespace NotProton.CompatRun

/-! ## What a launch has to go on -/

structure Launch where
  /-- The exported variables, as `env` lists them. -/
  env : List (Bytes × Bytes)
  /-- `${name-}`, exported or not. -/
  var : Bytes → Bytes
  table : ConfTable
  toolName : Bytes
  /-- `[ -f path ]`. -/
  isFile : Bytes → Bool
  gameApp : Bytes
  loaderArgs : List Bytes
  inserts : Bytes
  featDylibs : Bytes
  gameCwd : Bytes
  env_nodup : (env.map Prod.fst).Nodup
  env_names : ∀ e ∈ env, (61 : UInt8) ∉ e.1 ∧ (10 : UInt8) ∉ e.1
  env_var : ∀ e ∈ env, var e.1 = e.2
  gameApp_abs : gameApp.head? = some 47

def Launch.home (l : Launch) : Bytes := l.var (ascii "HOME")

-- The first file a plugin names that is there, nothing where none is.
def npFeatRequires (l : Launch) (id : Bytes) : Bytes :=
  (((npConfValues l.table id (ascii "requires")).map (npHomePath l.home)).find? l.isFile).getD []

def npFeatInstalled (l : Launch) (id : Bytes) : Bool :=
  npConfValue l.table id (ascii "requires") = [] || npFeatRequires l id ≠ []

def npFeatSwitched (l : Launch) (id : Bytes) : Bool :=
  if npConfValue l.table id (ascii "type") ≠ [] then l.var id ≠ []
  else
    let on := npConfValue l.table id (ascii "on")
    l.var id = if on = [] then ascii "1" else on

-- The grammar leaves a pattern one `*` and only at its end.
def toolMatches (tool pat : Bytes) : Bool :=
  if pat.getLast? = some 42 then pat.dropLast.isPrefixOf tool else pat = tool

def npFeatForTool (l : Launch) (id : Bytes) : Bool :=
  let tools := npConfValues l.table id (ascii "tools")
  tools = [] || tools.any fun pat ↦ pat ≠ [] && toolMatches l.toolName pat

/-- `np_feat_active`, with `fuel` counting down from the 33 levels it goes. -/
def npFeatActive (l : Launch) : Nat → Bytes → Bool
  | 0, _ => false
  | fuel + 1, id =>
      npConfHas l.table id && npFeatForTool l id && npFeatSwitched l id && npFeatInstalled l id &&
        let dep := npConfValue l.table id (ascii "depends")
        (dep = [] || npFeatActive l fuel dep)

/-! ## The lines they set -/

section
variable (l : Launch)

variable {l} {sh : Shell}

end

end NotProton.CompatRun
