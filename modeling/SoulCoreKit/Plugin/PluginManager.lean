import SoulCoreKit.Lib.UnorderedMap

/-!
# The plugin manager

`sc::plugin::PluginManager` over libraries that the runtime opens. Every `dlopen` that succeeds gives a
new handle, and the calls of the exported functions, the openings and the closings are noted in `trace`,
which nothing in the source reads; what a plugin returns may depend on it. The methods hold the lock
throughout, so a call is one step. The path of a library only goes to `dlopen`, so an operation has the
library that was found instead.
-/

namespace SoulCoreKit.Plugin

/-- An opening or closing of a library, or the call of an exported function. -/
inductive Event where
  | dlopen (handle : Nat)
  | pluginGetMetadata (handle : Nat)
  | pluginCreate (handle : Nat)
  | pluginInitialize (handle : Nat) (result : Int)
  | pluginShutdown (handle : Nat)
  | dlclose (handle : Nat)
  deriving DecidableEq, Repr

def Event.handle : Event → Nat
  | .dlopen handle => handle
  | .pluginGetMetadata handle => handle
  | .pluginCreate handle => handle
  | .pluginInitialize handle _ => handle
  | .pluginShutdown handle => handle
  | .dlclose handle => handle

/-- The fields that the manager reads; the identifier may be null. -/
structure PluginMetadata where
  id : Option String
  abiVersion : Int
  deriving DecidableEq, Repr

/-- What `dlsym` finds in a library, and what the functions return: the metadata and the instance may be
null, and `pluginInitialize` may return anything each time. -/
structure Library where
  pluginGetMetadata : Option (Option PluginMetadata)
  pluginCreate : Option Bool := none
  pluginInitialize : Option (List Event → Int) := none
  pluginShutdown : Bool := true

def PLUGIN_ABI_VERSION : Int := 1

/-- `plugin` tells whether there is an instance. -/
structure PluginHandle where
  libraryHandle : Nat
  library : Library
  plugin : Bool := false
  metadata : PluginMetadata
  initialized : Bool := false
  enabled : Bool := false

structure PluginManager where
  mPlugins : UnorderedMap String PluginHandle := ∅
  nextHandle : Nat := 0
  trace : List Event := []

namespace PluginManager

def note (manager : PluginManager) (event : Event) : PluginManager :=
  { manager with trace := manager.trace ++ [event] }

def dlclose (manager : PluginManager) (handle : Nat) : PluginManager := manager.note (.dlclose handle)

/-- The destructor of a handle, whose library was opened. -/
def destroy (manager : PluginManager) (handle : PluginHandle) : PluginManager :=
  let manager :=
    if handle.initialized ∧ handle.library.pluginShutdown then
      manager.note (.pluginShutdown handle.libraryHandle)
    else manager
  manager.dlclose handle.libraryHandle

/-- The call of `pluginCreate`, if there is one. -/
def createInstance (manager : PluginManager) (handle : Nat) : Option Bool → Bool × PluginManager
  | none => (false, manager)
  | some created => (created, manager.note (.pluginCreate handle))

/-- What `loadNativePlugin` does with the metadata of an open library. -/
def loadWithMetadata (manager : PluginManager) (handle : Nat) (library : Library) :
    Option PluginMetadata → Bool × PluginManager
  | none => (false, manager.dlclose handle)
  | some metadata =>
      match metadata.id with
      | none => (false, manager.dlclose handle)
      | some pluginId =>
          if metadata.abiVersion ≠ PLUGIN_ABI_VERSION then
            (false, manager.dlclose handle)
          else if pluginId ∈ manager.mPlugins then
            (false, manager.dlclose handle)
          else
            let (plugin, manager) := manager.createInstance handle library.pluginCreate
            (true, { manager with
              mPlugins := manager.mPlugins.insert pluginId
                { libraryHandle := handle, library, plugin, metadata } })

/-- `loadNativePlugin`, with what `dlopen` found. -/
def loadNativePlugin (manager : PluginManager) : Option Library → Bool × PluginManager
  | none => (false, manager)
  | some library =>
      let handle := manager.nextHandle
      let manager := { manager with nextHandle := handle + 1 }.note (.dlopen handle)
      match library.pluginGetMetadata with
      | none => (false, manager.dlclose handle)
      | some metadata => (manager.note (.pluginGetMetadata handle)).loadWithMetadata handle library metadata

def loadPlugin (manager : PluginManager) (library : Option Library) : Bool × PluginManager :=
  manager.loadNativePlugin library

def initializePluginLocked (manager : PluginManager) (pluginId : String) : Bool × PluginManager :=
  match manager.mPlugins.lookup pluginId with
  | none => (false, manager)
  | some handle =>
      if handle.initialized then
        (true, manager)
      else
        match handle.library.pluginInitialize with
        | none => (false, manager)
        | some function =>
            let result := function manager.trace
            let manager := manager.note (.pluginInitialize handle.libraryHandle result)
            if result ≠ 0 then
              (false, manager)
            else
              (true, { manager with
                mPlugins := manager.mPlugins.insert pluginId
                  { handle with initialized := true, enabled := true } })

def shutdownPluginLocked (manager : PluginManager) (pluginId : String) : Bool × PluginManager :=
  match manager.mPlugins.lookup pluginId with
  | none => (false, manager)
  | some handle =>
      if ¬ handle.initialized then
        (true, manager)
      else
        let manager :=
          if handle.library.pluginShutdown then manager.note (.pluginShutdown handle.libraryHandle)
          else manager
        (true, { manager with
          mPlugins := manager.mPlugins.insert pluginId
            { handle with initialized := false, enabled := false } })

def initializePlugin (manager : PluginManager) (pluginId : String) : Bool × PluginManager :=
  manager.initializePluginLocked pluginId

def shutdownPlugin (manager : PluginManager) (pluginId : String) : Bool × PluginManager :=
  manager.shutdownPluginLocked pluginId

/-- `m_plugins.erase(it)`, which destroys the handle as it is now. -/
def erase (manager : PluginManager) (pluginId : String) : PluginManager :=
  match manager.mPlugins.lookup pluginId with
  | none => manager
  | some handle => { manager with mPlugins := manager.mPlugins.erase pluginId }.destroy handle

def unloadPlugin (manager : PluginManager) (pluginId : String) : Bool × PluginManager :=
  match manager.mPlugins.lookup pluginId with
  | none => (false, manager)
  | some handle =>
      let manager :=
        if handle.initialized then (manager.shutdownPluginLocked pluginId).2 else manager
      (true, manager.erase pluginId)

/-- The list is the order in which the loop visits `m_plugins`. -/
def initializeAllPlugins (manager : PluginManager) (order : List String) : PluginManager :=
  order.foldl (fun manager pluginId => (manager.initializePluginLocked pluginId).2) manager

def shutdownAllPlugins (manager : PluginManager) (order : List String) : PluginManager :=
  order.foldl (fun manager pluginId => (manager.shutdownPluginLocked pluginId).2) manager

/-- The destructor of the manager destroys `m_plugins`, in some order. -/
def destruct (manager : PluginManager) (order : List String) : PluginManager :=
  order.foldl erase manager

end PluginManager

inductive Op where
  | loadPlugin (library : Option Library)
  | initializePlugin (pluginId : String)
  | initializeAllPlugins (order : List String)
  | shutdownPlugin (pluginId : String)
  | shutdownAllPlugins (order : List String)
  | unloadPlugin (pluginId : String)

namespace PluginManager

def step (manager : PluginManager) : Op → PluginManager
  | .loadPlugin library => (manager.loadPlugin library).2
  | .initializePlugin pluginId => (manager.initializePlugin pluginId).2
  | .initializeAllPlugins order => manager.initializeAllPlugins order
  | .shutdownPlugin pluginId => (manager.shutdownPlugin pluginId).2
  | .shutdownAllPlugins order => manager.shutdownAllPlugins order
  | .unloadPlugin pluginId => (manager.unloadPlugin pluginId).2

end PluginManager

/-- A library that is loaded exports `pluginShutdown`. -/
def Op.ExportsShutdown : Op → Prop
  | .loadPlugin (some library) => library.pluginShutdown = true
  | _ => True

end SoulCoreKit.Plugin
