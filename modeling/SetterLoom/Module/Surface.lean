/-!
# Names of the runtime surface

Code that changes a property and code woven into it refer to a few types and members of the runtime by
name. Here are the names, and how the names that go with a property are formed.
-/

namespace SetterLoom.Surface
set_option autoImplicit false

/-! ## Types -/

def object : String := "System.Object"
def valueType : String := "System.ValueType"
def string : String := "System.String"
def boolean : String := "System.Boolean"
def int32 : String := "System.Int32"
def nativeInt : String := "System.IntPtr"
def void : String := "System.Void"
def multicastDelegate : String := "System.MulticastDelegate"
def eventArgs : String := "System.ComponentModel.PropertyChangedEventArgs"
def eventHandler : String := "System.ComponentModel.PropertyChangedEventHandler"
def notifyInterface : String := "System.ComponentModel.INotifyPropertyChanged"
def contentInterface : String := "PropertyChanged.INotifyPropertyChangedContent"

/-! ## Members -/

/-- The field of the event arguments that holds the property's name. -/
def nameField : String := "propertyName"

/-- The event that announces a changed property, and the field behind it. -/
def changedEvent : String := "PropertyChanged"

/-- The name of every constructor. -/
def constructor : String := ".ctor"

/-- The static comparison of two objects. -/
def equals : String := "Equals"

/-- The method that a delegate is called through. -/
def invoke : String := "Invoke"

/-- The method that raises the event. -/
def raiser : String := "OnPropertyChanged"

/-! ## Attributes -/

/-- The attribute of a property whose setter leaves the dirty flag alone. -/
def keepsFlag : String := "PropertyChanged.DoNotSetChangedAttribute"

/-- The attribute of a setter that has been woven. -/
def woven : String := "PropertyWeaver.WovenAttribute"

/-- All names that are constants, in a fixed order. -/
def constants : List String :=
  [object, valueType, string, boolean, int32, nativeInt, void, multicastDelegate, eventArgs,
   eventHandler, notifyInterface, contentInterface, nameField, changedEvent, constructor,
   keepsFlag, woven]

/-! ## Names that go with another name -/

/-- The method that adds a handler to an event. -/
def adder (event : String) : String := "add_" ++ event

/-- The method that removes a handler from an event. -/
def remover (event : String) : String := "remove_" ++ event

/-- The getter of a property. -/
def getter (property : String) : String := "get_" ++ property

/-- The setter of a property. -/
def setter (property : String) : String := "set_" ++ property

end SetterLoom.Surface
