import MarkupLowering.Error
import MarkupLowering.Hierarchy
import MarkupLowering.Member

/-!
# MarkupLowering.Lowering.Config

The **configuration** of a lowering: the runtime types that nodes refer to, and the hook that is
called on objects when their initialization begins.
-/

namespace MarkupLowering

/-- The hook for the begin of an initialization: a method, declared on the type whose values it
is called on. -/
structure InitHook where
  hookType : TypeRef
  beginInit : MethodRef
  declared : (beginInit.declaring == hookType) = true

/-- A hook, provided that the method is declared on the type. -/
def InitHook.new (hookType : TypeRef) (beginInit : MethodRef) : Except EmitError InitHook :=
  if h : (beginInit.declaring == hookType) = true then .ok ⟨hookType, beginInit, h⟩
  else .error (.initHookMismatch hookType.fullName beginInit.render)

/-- What nodes read while they are lowered. -/
structure Config where
  core : CoreTypes
  hook : Option InitHook := none
  /-- Narrows which values get the hook. It is given the hook type and the type of the value. -/
  narrowing : Option (TypeRef → TypeRef → Bool) := none

/-- Narrows the hook to types whose name ends in a text. -/
def Config.nameEndsIn (ending : String) (_ type : TypeRef) : Bool := type.simpleName.endsWith ending

/-- Narrows the hook to types of the hook type's namespace. -/
def Config.sameNamespace (hookType type : TypeRef) : Bool :=
  hookType.namespaceName == type.namespaceName

/-- A configuration and the hierarchy that its types live in. -/
structure Environment where
  hierarchy : Hierarchy
  config : Config

/-- The hook that values of a type get. They have to be of the hook type, whatever the narrowing
says. -/
def Environment.beginInitFor (env : Environment) (type : TypeRef) : Option MethodRef :=
  match env.config.hook with
  | none => none
  | some hook =>
    let admitted := match env.config.narrowing with
      | none => true
      | some admits => admits hook.hookType type
    if env.hierarchy.assignable hook.hookType type && admitted then some hook.beginInit else none

end MarkupLowering
