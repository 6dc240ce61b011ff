import ClassText.Hierarchy

/-!
# The standard library

The classes that are always known: those most likely to meet where two paths
through a method come together. These are boxes, strings and their builders,
collections, and exceptions.
-/

namespace ClassText.Hierarchy

def classEntry (superclass name : String) (interfaces : List String) : ClassInfo :=
  ⟨name, some superclass, interfaces, false⟩

/-- An interface with those above it. Every interface has the root for its superclass. -/
def interfaceEntry (name : String) (above : List String) : ClassInfo :=
  ⟨name, some ClassName.object, above, true⟩

def rootClasses : List ClassInfo :=
  [("java/lang/String",
    ["java/io/Serializable", "java/lang/Comparable", "java/lang/CharSequence"]),
   ("java/lang/Class", ["java/io/Serializable"]),
   ("java/lang/Enum", ["java/lang/Comparable", "java/io/Serializable"]),
   ("java/lang/Number", ["java/io/Serializable"]),
   ("java/lang/Boolean", ["java/io/Serializable", "java/lang/Comparable"]),
   ("java/lang/Character", ["java/io/Serializable", "java/lang/Comparable"]),
   ("java/lang/AbstractStringBuilder", ["java/lang/Appendable", "java/lang/CharSequence"]),
   ("java/lang/Thread", ["java/lang/Runnable"]),
   ("java/lang/Throwable", ["java/io/Serializable"]),
   ("java/util/AbstractCollection", ["java/util/Collection"]),
   ("java/util/AbstractMap", ["java/util/Map"])].map fun entry =>
    classEntry "java/lang/Object" entry.1 entry.2

def belowNumber : List ClassInfo :=
  [("java/lang/Byte", ["java/lang/Comparable"]),
   ("java/lang/Short", ["java/lang/Comparable"]),
   ("java/lang/Integer", ["java/lang/Comparable"]),
   ("java/lang/Long", ["java/lang/Comparable"]),
   ("java/lang/Float", ["java/lang/Comparable"]),
   ("java/lang/Double", ["java/lang/Comparable"])].map fun entry =>
    classEntry "java/lang/Number" entry.1 entry.2

def belowAbstractStringBuilder : List ClassInfo :=
  [("java/lang/StringBuilder", ["java/io/Serializable", "java/lang/CharSequence"]),
   ("java/lang/StringBuffer", ["java/io/Serializable", "java/lang/CharSequence"])].map fun entry =>
    classEntry "java/lang/AbstractStringBuilder" entry.1 entry.2

def belowThrowable : List ClassInfo :=
  ["java/lang/Exception", "java/lang/Error"].map fun name =>
    classEntry "java/lang/Throwable" name []

def belowError : List ClassInfo :=
  ["java/lang/AssertionError", "java/lang/LinkageError", "java/lang/VirtualMachineError",
   "java/lang/ThreadDeath", "java/io/IOError"].map fun name =>
    classEntry "java/lang/Error" name []

def belowLinkageError : List ClassInfo :=
  ["java/lang/NoClassDefFoundError", "java/lang/ExceptionInInitializerError",
   "java/lang/ClassFormatError", "java/lang/UnsatisfiedLinkError", "java/lang/VerifyError",
   "java/lang/IncompatibleClassChangeError"].map fun name =>
    classEntry "java/lang/LinkageError" name []

def belowClassFormatError : List ClassInfo :=
  ["java/lang/UnsupportedClassVersionError"].map fun name =>
    classEntry "java/lang/ClassFormatError" name []

def belowIncompatibleClassChangeError : List ClassInfo :=
  ["java/lang/AbstractMethodError", "java/lang/NoSuchFieldError", "java/lang/NoSuchMethodError"].map fun name =>
    classEntry "java/lang/IncompatibleClassChangeError" name []

def belowVirtualMachineError : List ClassInfo :=
  ["java/lang/OutOfMemoryError", "java/lang/StackOverflowError", "java/lang/InternalError"].map fun name =>
    classEntry "java/lang/VirtualMachineError" name []

def belowException : List ClassInfo :=
  [("java/lang/RuntimeException", []),
   ("java/lang/InterruptedException", []),
   ("java/lang/CloneNotSupportedException", []),
   ("java/lang/ReflectiveOperationException", []),
   ("java/io/IOException", []),
   ("java/net/URISyntaxException", []),
   ("java/util/zip/DataFormatException", []),
   ("java/text/ParseException", []),
   ("java/sql/SQLException", ["java/lang/Iterable"]),
   ("java/security/GeneralSecurityException", []),
   ("java/util/concurrent/ExecutionException", []),
   ("java/util/concurrent/TimeoutException", []),
   ("java/util/concurrent/BrokenBarrierException", [])].map fun entry =>
    classEntry "java/lang/Exception" entry.1 entry.2

def belowRuntimeException : List ClassInfo :=
  ["java/lang/IllegalArgumentException", "java/lang/IllegalStateException",
   "java/lang/NullPointerException", "java/lang/ClassCastException",
   "java/lang/ArithmeticException", "java/lang/UnsupportedOperationException",
   "java/lang/SecurityException", "java/lang/IndexOutOfBoundsException",
   "java/lang/NegativeArraySizeException", "java/lang/ArrayStoreException",
   "java/lang/IllegalMonitorStateException", "java/lang/TypeNotPresentException",
   "java/lang/reflect/UndeclaredThrowableException", "java/io/UncheckedIOException",
   "java/util/NoSuchElementException", "java/util/ConcurrentModificationException",
   "java/util/MissingResourceException", "java/util/EmptyStackException",
   "java/util/concurrent/CompletionException",
   "java/util/concurrent/RejectedExecutionException"].map fun name =>
    classEntry "java/lang/RuntimeException" name []

def belowIllegalArgumentException : List ClassInfo :=
  ["java/lang/NumberFormatException"].map fun name =>
    classEntry "java/lang/IllegalArgumentException" name []

def belowIndexOutOfBoundsException : List ClassInfo :=
  ["java/lang/ArrayIndexOutOfBoundsException", "java/lang/StringIndexOutOfBoundsException"].map fun name =>
    classEntry "java/lang/IndexOutOfBoundsException" name []

def belowReflectiveOperationException : List ClassInfo :=
  ["java/lang/ClassNotFoundException", "java/lang/NoSuchMethodException",
   "java/lang/NoSuchFieldException", "java/lang/InstantiationException",
   "java/lang/IllegalAccessException", "java/lang/reflect/InvocationTargetException"].map fun name =>
    classEntry "java/lang/ReflectiveOperationException" name []

def belowIOException : List ClassInfo :=
  ["java/io/FileNotFoundException", "java/io/EOFException", "java/io/UTFDataFormatException",
   "java/io/UnsupportedEncodingException", "java/io/InterruptedIOException",
   "java/io/ObjectStreamException", "java/net/SocketException",
   "java/net/UnknownHostException", "java/net/MalformedURLException",
   "java/nio/charset/CharacterCodingException", "java/nio/file/FileSystemException",
   "java/util/zip/ZipException"].map fun name =>
    classEntry "java/io/IOException" name []

def belowObjectStreamException : List ClassInfo :=
  ["java/io/InvalidObjectException", "java/io/NotSerializableException"].map fun name =>
    classEntry "java/io/ObjectStreamException" name []

def belowSocketException : List ClassInfo :=
  ["java/net/ConnectException"].map fun name =>
    classEntry "java/net/SocketException" name []

def belowInterruptedIOException : List ClassInfo :=
  ["java/net/SocketTimeoutException"].map fun name =>
    classEntry "java/io/InterruptedIOException" name []

def belowFileSystemException : List ClassInfo :=
  ["java/nio/file/NoSuchFileException", "java/nio/file/AccessDeniedException",
   "java/nio/file/FileAlreadyExistsException"].map fun name =>
    classEntry "java/nio/file/FileSystemException" name []

def belowGeneralSecurityException : List ClassInfo :=
  ["java/security/NoSuchAlgorithmException", "java/security/KeyException"].map fun name =>
    classEntry "java/security/GeneralSecurityException" name []

def belowKeyException : List ClassInfo :=
  ["java/security/InvalidKeyException"].map fun name =>
    classEntry "java/security/KeyException" name []

def belowIllegalStateException : List ClassInfo :=
  ["java/util/concurrent/CancellationException"].map fun name =>
    classEntry "java/lang/IllegalStateException" name []

def belowAbstractCollection : List ClassInfo :=
  [("java/util/AbstractList", ["java/util/List"]),
   ("java/util/AbstractSet", ["java/util/Set"])].map fun entry =>
    classEntry "java/util/AbstractCollection" entry.1 entry.2

def belowAbstractList : List ClassInfo :=
  [("java/util/ArrayList", ["java/util/List", "java/io/Serializable", "java/lang/Cloneable"])].map fun entry =>
    classEntry "java/util/AbstractList" entry.1 entry.2

def belowAbstractSet : List ClassInfo :=
  [("java/util/HashSet", ["java/util/Set", "java/io/Serializable", "java/lang/Cloneable"])].map fun entry =>
    classEntry "java/util/AbstractSet" entry.1 entry.2

def belowHashSet : List ClassInfo :=
  [("java/util/LinkedHashSet", ["java/util/Set", "java/io/Serializable", "java/lang/Cloneable"])].map fun entry =>
    classEntry "java/util/HashSet" entry.1 entry.2

def belowAbstractMap : List ClassInfo :=
  [("java/util/HashMap", ["java/util/Map", "java/io/Serializable", "java/lang/Cloneable"]),
   ("java/util/TreeMap", ["java/util/Map", "java/io/Serializable", "java/lang/Cloneable"])].map fun entry =>
    classEntry "java/util/AbstractMap" entry.1 entry.2

def belowHashMap : List ClassInfo :=
  [("java/util/LinkedHashMap", ["java/util/Map"])].map fun entry =>
    classEntry "java/util/HashMap" entry.1 entry.2

def standardInterfaces : List ClassInfo := [
  interfaceEntry "java/io/Serializable" [],
  interfaceEntry "java/lang/Cloneable" [],
  interfaceEntry "java/lang/Comparable" [],
  interfaceEntry "java/lang/CharSequence" [],
  interfaceEntry "java/lang/Appendable" [],
  interfaceEntry "java/lang/Runnable" [],
  interfaceEntry "java/lang/AutoCloseable" [],
  interfaceEntry "java/io/Closeable" ["java/lang/AutoCloseable"],
  interfaceEntry "java/lang/Iterable" [],
  interfaceEntry "java/util/Collection" ["java/lang/Iterable"],
  interfaceEntry "java/util/List" ["java/util/Collection"],
  interfaceEntry "java/util/Set" ["java/util/Collection"],
  interfaceEntry "java/util/Map" []]

def standardClasses : List ClassInfo :=
  ⟨ClassName.object, none, [], false⟩ ::
    [rootClasses, belowNumber, belowAbstractStringBuilder, belowThrowable, belowError,
     belowLinkageError, belowClassFormatError, belowIncompatibleClassChangeError,
     belowVirtualMachineError, belowException, belowRuntimeException,
     belowIllegalArgumentException, belowIndexOutOfBoundsException,
     belowReflectiveOperationException, belowIOException, belowObjectStreamException,
     belowSocketException, belowInterruptedIOException, belowFileSystemException,
     belowGeneralSecurityException, belowKeyException, belowIllegalStateException,
     belowAbstractCollection, belowAbstractList, belowAbstractSet, belowHashSet,
     belowAbstractMap, belowHashMap, standardInterfaces].flatten

/-- The hierarchy that knows nothing else. -/
def standard : Hierarchy :=
  ⟨[], standardClasses.map fun info => (info.name, info)⟩

instance : Inhabited Hierarchy := ⟨standard⟩

end ClassText.Hierarchy
